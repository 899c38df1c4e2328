/-
  LinuxCodeDemos.NailPrinter.DecodeBlock

  `base64_decode_block` of `cdecode.c` with the block it writes.

  - `*plainchar` is stored at the start of a call, completed and started anew by the characters, and
    read at the end of the call: the decoder always touches one byte behind those it has decoded.
  - The block holds anything at first; behind the decoded bytes it is left as it was.
  - The caller adds the result to its pointer before the next call.

  The accesses stay in the block exactly if it has room for one byte more than is decoded, and what
  is decoded is what `decodeByte` collects (`decodePieces_spec`).
-/

import LinuxCodeDemos.Lib.Run
import LinuxCodeDemos.NailPrinter.Base64

namespace LinuxCodeDemos.NailPrinter

open Lib

-- ============================================================================
-- The decoder and its block
-- ============================================================================

/-- `base64_decodestate`. -/
structure DecodeState where
  step : DecodeStep
  plainchar : UInt8
  deriving DecidableEq, Repr

def base64InitDecodestate : DecodeState := { step := .stepA, plainchar := 0 }

/-- Inside of a call: the block, and the offset that `plainchar` points to. -/
structure Decoding where
  step : DecodeStep
  block : List UInt8
  plainchar : Nat
  deriving DecidableEq, Repr

namespace Decoding

/-- `*plainchar = v`. -/
def put (s : Decoding) (v : UInt8) : Except Fault Decoding := do
  let block ← store s.block s.plainchar [v]
  .ok { s with block }

/-- `*plainchar++ |= v`. -/
def complete (s : Decoding) (v : UInt8) : Except Fault Decoding := do
  let old ← load s.block s.plainchar
  let s ← s.put (old ||| v)
  .ok { s with plainchar := s.plainchar + 1 }

/-- One character of code. -/
def decodeChar (signedChar : Bool) (s : Decoding) (code : UInt8) : Except Fault Decoding :=
  let fragment := base64DecodeValue code
  if signedChar ∧ fragment ≥ 128 then .ok s
  else
    match s.step with
    | .stepA => do
        let s ← s.put ((fragment &&& 0x3f) <<< 2)
        .ok { s with step := .stepB }
    | .stepB => do
        let s ← s.complete ((fragment &&& 0x30) >>> 4)
        let s ← s.put ((fragment &&& 0x0f) <<< 4)
        .ok { s with step := .stepC }
    | .stepC => do
        let s ← s.complete ((fragment &&& 0x3c) >>> 2)
        let s ← s.put ((fragment &&& 0x03) <<< 6)
        .ok { s with step := .stepD }
    | .stepD => do
        let s ← s.complete (fragment &&& 0x3f)
        .ok { s with step := .stepA }

/-- The loop, on what is left of the block `code_in` points to and of `length_in`. -/
def decodeLoop (signedChar : Bool) :
    List (Option UInt8) → Int → Decoding → Except Fault Decoding
  | [], left, s => if left = 0 then .ok s else .error .read
  | code :: rest, left, s =>
      if left = 0 then .ok s
      else
        match code with
        | none => .error .read
        | some code => do
            let s ← s.decodeChar signedChar code
            decodeLoop signedChar rest (left - 1) s

end Decoding

/-- What a caller of the decoder has: the state, the output block, and the bytes decoded so far. -/
structure Output where
  state : DecodeState
  block : List UInt8
  cnt : Nat
  deriving DecidableEq, Repr

/-- Before the first call. -/
def Output.start (block : List UInt8) : Output :=
  { state := base64InitDecodestate, block, cnt := 0 }

/-- The bytes that were decoded. -/
def Output.plain (o : Output) : List UInt8 := o.block.take o.cnt

/-- `c += base64_decode_block(code_in, length_in, c, &s)`. -/
def decodeBlock (signedChar : Bool) (code : List (Option UInt8)) (length : Int) (o : Output) :
    Except Fault Output := do
  let s ← Decoding.put { step := o.state.step, block := o.block, plainchar := o.cnt }
    o.state.plainchar
  let s ← s.decodeLoop signedChar code length
  let plainchar ← load s.block s.plainchar
  .ok { state := { step := s.step, plainchar }, block := s.block, cnt := s.plainchar }

/-- One piece of code after the other. -/
def decodePieces (signedChar : Bool) : List (List UInt8) → Output → Except Fault Output
  | [], o => .ok o
  | piece :: pieces, o => do
      let o ← decodeBlock signedChar (piece.map some) piece.length o
      decodePieces signedChar pieces o

/-- The bytes of some characters of code. -/
def decodeBytes (signedChar : Bool) (s : Decoded) (code : List UInt8) : Decoded :=
  code.foldl (decodeByte signedChar) s

-- ============================================================================
-- One character
-- ============================================================================

section Bytes

variable {signedChar : Bool}

theorem decodeBytes_append (s : Decoded) (xs ys : List UInt8) :
    decodeBytes signedChar s (xs ++ ys)
      = decodeBytes signedChar (decodeBytes signedChar s xs) ys :=
  List.foldl_append

theorem length_decodeByte (d : Decoded) (code : UInt8) :
    d.plain.length ≤ (decodeByte signedChar d code).plain.length := by
  rw [decodeByte]
  split
  · exact Nat.le_refl _
  · split
    · exact Nat.le_refl _
    · exact List.length_append ▸ Nat.le_add_right _ _
    · exact List.length_append ▸ Nat.le_add_right _ _
    · exact List.length_append ▸ Nat.le_add_right _ _

theorem length_decodeBytes (code : List UInt8) (d : Decoded) :
    d.plain.length ≤ (decodeBytes signedChar d code).plain.length := by
  induction code generalizing d with
  | nil => exact Nat.le_refl _
  | cons byte code ih => exact (length_decodeByte d byte).trans (ih _)

end Bytes

/-- The block holds the decoded bytes, the unfinished one, and behind them what was there before. -/
structure Decoding.Holds (before : List UInt8) (d : Decoded) (s : Decoding) : Prop where
  plainchar : s.plainchar = d.plain.length
  length : s.block.length = before.length
  inside : d.plain.length ≤ before.length
  plain : s.block.take d.plain.length = d.plain
  unfinished : d.step ≠ .stepA → s.block[d.plain.length]? = some d.plainchar
  behind : ∀ i, d.plain.length < i → s.block[i]? = before[i]?

namespace Decoding.Holds

variable {before : List UInt8} {d : Decoded} {s : Decoding}

theorem start (step : DecodeStep) :
    Holds before .start { step, block := before, plainchar := 0 } :=
  ⟨rfl, rfl, Nat.zero_le _, rfl, fun hne => absurd rfl hne, fun _ _ => rfl⟩

theorem withStep (h : Holds before d s) (step : DecodeStep) : Holds before d { s with step } :=
  ⟨h.plainchar, h.length, h.inside, h.plain, h.unfinished, h.behind⟩

/-- The byte behind the decoded ones is stored. -/
theorem put (h : Holds before d s) (d' : Decoded) (hlt : d.plain.length < before.length)
    (hplain : d'.plain = d.plain) {v : UInt8} (hv : d'.step ≠ .stepA → d'.plainchar = v) :
    ∃ s', s.put v = .ok s' ∧ s'.step = s.step ∧ Holds before d' s' := by
  have hin : s.plainchar < s.block.length := by
    rw [h.plainchar, h.length]
    exact hlt
  refine ⟨{ s with block := s.block.set s.plainchar v }, ?_, rfl, ?_⟩
  · rw [Decoding.put, bind_of_ok (store_single hin v)]
  · refine ⟨?_, List.length_set.trans h.length, ?_, ?_, fun hne => ?_, fun i hi => ?_⟩
    · rw [hplain]
      exact h.plainchar
    · rw [hplain]
      exact h.inside
    · rw [hplain, h.plainchar, List.take_set_of_le (Nat.le_refl _), h.plain]
    · rw [hplain, ← h.plainchar, List.getElem?_set_self hin, hv hne]
    · rw [hplain] at hi
      rw [List.getElem?_set_ne (by rw [h.plainchar]; exact Nat.ne_of_lt hi)]
      exact h.behind i hi

/-- There is no room behind the decoded bytes. -/
theorem put_error (h : Holds before d s) (hge : before.length ≤ d.plain.length) (v : UInt8) :
    s.put v = .error .write := by
  rw [Decoding.put, store, if_neg]
  · rfl
  · rintro (hnil | hle)
    · exact absurd hnil (List.cons_ne_nil _ _)
    · rw [h.plainchar, h.length] at hle
      exact absurd hle (Nat.not_le_of_lt (Nat.lt_succ_of_le hge))

/-- The unfinished byte is completed. -/
theorem complete (h : Holds before d s) (d' : Decoded) (hstep : d.step ≠ .stepA) {v : UInt8}
    (hplain : d'.plain = d.plain ++ [d.plainchar ||| v]) (hstep' : d'.step = .stepA) :
    ∃ s', s.complete v = .ok s' ∧ s'.step = s.step ∧ Holds before d' s' := by
  have hget := h.unfinished hstep
  obtain ⟨hlt, -⟩ := List.getElem?_eq_some_iff.mp hget
  have hload : load s.block s.plainchar = .ok d.plainchar := by
    rw [h.plainchar]
    exact load_eq_ok hget
  obtain ⟨s', hput, hsame, hs'⟩ := h.put { d with plainchar := d.plainchar ||| v }
    (by rw [← h.length]; exact hlt) rfl fun _ => rfl
  have hlen : d'.plain.length = d.plain.length + 1 := by
    rw [hplain, List.length_append, List.length_singleton]
  have hfinished : s'.block[d.plain.length]? = some (d.plainchar ||| v) := hs'.unfinished hstep
  have htake : s'.block.take d.plain.length = d.plain := hs'.plain
  refine ⟨{ s' with plainchar := s'.plainchar + 1 }, ?_, hsame, ?_, hs'.length, ?_, ?_,
    fun hne => absurd hstep' hne, fun i hi => hs'.behind i ?_⟩
  · rw [Decoding.complete, bind_of_ok hload, bind_of_ok hput]
  · rw [hlen]
    exact congrArg Nat.succ hs'.plainchar
  · rw [hlen, ← h.length]
    exact hlt
  · show s'.block.take d'.plain.length = d'.plain
    rw [hlen, List.take_add_one, htake, hfinished, hplain]
    rfl
  · rw [hlen] at hi
    exact Nat.lt_of_succ_lt hi

/-- A byte is completed, and the next one is started. -/
theorem completePut (h : Holds before d s) (d' : Decoded) (hstep : d.step ≠ .stepA) {v : UInt8}
    (hplain : d'.plain = d.plain ++ [d.plainchar ||| v]) :
    (∃ s', (do
          let s ← s.complete v
          let s ← s.put d'.plainchar
          .ok { s with step := d'.step }) = .ok s' ∧
        s'.step = d'.step ∧ Holds before d' s') ∨
      (∃ e, (do
          let s ← s.complete v
          let s ← s.put d'.plainchar
          .ok { s with step := d'.step } : Except Fault Decoding) = .error e) ∧
        before.length ≤ d'.plain.length := by
  obtain ⟨s₁, hcomplete, -, h₁⟩ := h.complete { d' with step := .stepA } hstep hplain rfl
  rw [bind_of_ok hcomplete]
  by_cases hlt : d'.plain.length < before.length
  · obtain ⟨s₂, hput, -, h₂⟩ := h₁.put d' hlt rfl fun _ => rfl
    exact .inl ⟨_, bind_of_ok hput, rfl, h₂.withStep _⟩
  · have hge := Nat.not_lt.mp hlt
    rw [h₁.put_error hge]
    exact .inr ⟨⟨_, rfl⟩, hge⟩

/-- A character is decoded, or the decoded bytes do not leave room behind them. -/
theorem decodeChar (h : Holds before d s) (signedChar : Bool) (hstep : s.step = d.step)
    (code : UInt8) :
    (∃ s', s.decodeChar signedChar code = .ok s' ∧
        s'.step = (decodeByte signedChar d code).step ∧
        Holds before (decodeByte signedChar d code) s') ∨
      (∃ e, s.decodeChar signedChar code = .error e) ∧
        before.length ≤ (decodeByte signedChar d code).plain.length := by
  rw [Decoding.decodeChar, decodeByte, hstep]
  split
  · exact .inl ⟨s, rfl, hstep, h⟩
  · generalize base64DecodeValue code = fragment
    cases hd : d.step with
    | stepA =>
        dsimp only
        by_cases hlt : d.plain.length < before.length
        · obtain ⟨s', hput, -, hs'⟩ := h.put { d with
            step := .stepB, plainchar := (fragment &&& 0x3f) <<< 2 } hlt rfl fun _ => rfl
          exact .inl ⟨_, bind_of_ok hput, rfl, hs'.withStep _⟩
        · have hge := Nat.not_lt.mp hlt
          rw [h.put_error hge]
          exact .inr ⟨⟨_, rfl⟩, hge⟩
    | stepB =>
        exact h.completePut {
          step := .stepC, plain := d.plain ++ [d.plainchar ||| (fragment &&& 0x30) >>> 4]
          plainchar := (fragment &&& 0x0f) <<< 4 } (by rw [hd]; decide) rfl
    | stepC =>
        exact h.completePut {
          step := .stepD, plain := d.plain ++ [d.plainchar ||| (fragment &&& 0x3c) >>> 2]
          plainchar := (fragment &&& 0x03) <<< 6 } (by rw [hd]; decide) rfl
    | stepD =>
        dsimp only
        obtain ⟨s', hcomplete, -, hs'⟩ := h.complete { d with
          step := .stepA, plain := d.plain ++ [d.plainchar ||| (fragment &&& 0x3f)] }
          (by rw [hd]; decide) rfl rfl
        exact .inl ⟨_, bind_of_ok hcomplete, rfl, hs'.withStep _⟩

-- ============================================================================
-- A call, and one after the other
-- ============================================================================

theorem decodeLoop (h : Holds before d s) (signedChar : Bool) (hstep : s.step = d.step)
    (code : List UInt8) :
    (∃ s', s.decodeLoop signedChar (code.map some) code.length = .ok s' ∧
        s'.step = (decodeBytes signedChar d code).step ∧
        Holds before (decodeBytes signedChar d code) s') ∨
      (∃ e, s.decodeLoop signedChar (code.map some) code.length = .error e) ∧
        before.length ≤ (decodeBytes signedChar d code).plain.length := by
  induction code generalizing d s with
  | nil => exact .inl ⟨s, rfl, hstep, h⟩
  | cons byte code ih =>
      rw [List.map_cons, List.length_cons, Decoding.decodeLoop, if_neg (by omega),
        show ((code.length + 1 : Nat) : Int) - 1 = code.length by omega, decodeBytes,
        List.foldl_cons]
      rcases h.decodeChar signedChar hstep byte with
        ⟨s', hchar, hstep', hs'⟩ | ⟨⟨e, hchar⟩, hge⟩
      · rw [bind_of_ok hchar]
        exact ih hs' hstep'
      · rw [hchar]
        exact .inr ⟨⟨e, rfl⟩, hge.trans (length_decodeBytes code _)⟩

end Decoding.Holds

/-- Between two calls: of an unfinished byte the state has a copy. -/
structure Output.Holds (before : List UInt8) (d : Decoded) (o : Output) : Prop where
  step : o.state.step = d.step
  unfinished : d.step ≠ .stepA → o.state.plainchar = d.plainchar
  block : Decoding.Holds before d { step := d.step, block := o.block, plainchar := o.cnt }

namespace Output.Holds

variable {before : List UInt8} {d : Decoded} {o : Output}

theorem start (before : List UInt8) : Holds before .start (.start before) :=
  ⟨rfl, fun hne => absurd rfl hne, Decoding.Holds.start _⟩

theorem plain_eq (h : Holds before d o) : o.plain = d.plain := by
  have hcnt : o.cnt = d.plain.length := h.block.plainchar
  rw [Output.plain, hcnt]
  exact h.block.plain

/-- One call. -/
theorem decodeBlock (h : Holds before d o) (signedChar : Bool) (code : List UInt8) :
    (∃ o', decodeBlock signedChar (code.map some) code.length o = .ok o' ∧
        Holds before (decodeBytes signedChar d code) o' ∧ o'.plain.length < before.length) ∨
      (∃ e, NailPrinter.decodeBlock signedChar (code.map some) code.length o = .error e) ∧
        before.length ≤ (decodeBytes signedChar d code).plain.length := by
  have hblock := h.block
  rw [← h.step] at hblock
  rw [NailPrinter.decodeBlock]
  by_cases hlt : d.plain.length < before.length
  · obtain ⟨s, hput, hstep, hs⟩ := hblock.put d hlt rfl fun hne => (h.unfinished hne).symm
    rw [bind_of_ok hput]
    rcases hs.decodeLoop signedChar (hstep.trans h.step) code with
      ⟨s', hloop, hstep', hs'⟩ | ⟨⟨e, hloop⟩, hge⟩
    · rw [bind_of_ok hloop]
      by_cases hroom : (decodeBytes signedChar d code).plain.length < before.length
      · have hin : s'.plainchar < s'.block.length := by
          rw [hs'.plainchar, hs'.length]
          exact hroom
        have ho' : Holds before (decodeBytes signedChar d code)
            { state := { step := s'.step, plainchar := s'.block[s'.plainchar] }
              block := s'.block, cnt := s'.plainchar } := by
          refine ⟨hstep', fun hne => ?_, hs'.withStep _⟩
          have hget := hs'.unfinished hne
          rw [← hs'.plainchar, List.getElem?_eq_getElem hin] at hget
          exact Option.some.inj hget
        refine .inl ⟨_, bind_of_ok (load_of_lt hin), ho', ?_⟩
        rw [ho'.plain_eq]
        exact hroom
      · have hge := Nat.not_lt.mp hroom
        have hload : load s'.block s'.plainchar = .error .read := by
          rw [load, List.getElem?_eq_none]
          rw [hs'.plainchar, hs'.length]
          exact hge
        rw [hload]
        exact .inr ⟨⟨_, rfl⟩, hge⟩
    · rw [hloop]
      exact .inr ⟨⟨e, rfl⟩, hge⟩
  · have hge := Nat.not_lt.mp hlt
    rw [hblock.put_error hge]
    exact .inr ⟨⟨_, rfl⟩, hge.trans (length_decodeBytes code d)⟩

/-- Any pieces. -/
theorem decodePieces (h : Holds before d o) (signedChar : Bool) (pieces : List (List UInt8))
    (hne : pieces ≠ []) :
    (∃ o', decodePieces signedChar pieces o = .ok o' ∧
        Holds before (decodeBytes signedChar d pieces.flatten) o' ∧
        o'.plain.length < before.length) ∨
      (∃ e, NailPrinter.decodePieces signedChar pieces o = .error e) ∧
        before.length ≤ (decodeBytes signedChar d pieces.flatten).plain.length := by
  induction pieces generalizing d o with
  | nil => exact absurd rfl hne
  | cons piece pieces ih =>
      rw [NailPrinter.decodePieces, List.flatten_cons, decodeBytes_append]
      rcases h.decodeBlock signedChar piece with
        ⟨o', hblock, ho', hlt⟩ | ⟨⟨e, hblock⟩, hge⟩
      · rw [bind_of_ok hblock]
        by_cases hnil : pieces = []
        · subst hnil
          exact .inl ⟨o', rfl, ho', hlt⟩
        · exact ih ho' hnil
      · rw [hblock]
        exact .inr ⟨⟨e, rfl⟩, hge.trans (length_decodeBytes _ _)⟩

end Output.Holds

section Spec

variable (signedChar : Bool) (before : List UInt8) {pieces : List (List UInt8)}

/-- The accesses stay in the block exactly if there is room for one byte behind the decoded ones. -/
theorem decodePieces_ok_iff (hne : pieces ≠ []) :
    (∃ o, decodePieces signedChar pieces (.start before) = .ok o) ↔
      (decodeBytes signedChar .start pieces.flatten).plain.length < before.length := by
  rcases (Output.Holds.start before).decodePieces signedChar pieces hne with
    ⟨o, hrun, ho, hlt⟩ | ⟨⟨e, hrun⟩, hge⟩
  · rw [ho.plain_eq] at hlt
    exact iff_of_true ⟨o, hrun⟩ hlt
  · rw [hrun]
    exact iff_of_false (fun ⟨o, h⟩ => by cases h) (Nat.not_lt.mpr hge)

/-- What is decoded, and the rest of the block. -/
theorem decodePieces_spec (hne : pieces ≠ []) {o : Output}
    (hrun : decodePieces signedChar pieces (.start before) = .ok o) :
    o.plain = (decodeBytes signedChar .start pieces.flatten).plain ∧
      ∀ i, o.cnt < i → o.block[i]? = before[i]? := by
  rcases (Output.Holds.start before).decodePieces signedChar pieces hne with
    ⟨o', hrun', ho', -⟩ | ⟨⟨e, hrun'⟩, -⟩
  · obtain rfl := Except.ok.inj (hrun.symm.trans hrun')
    have hcnt : o.cnt = (decodeBytes signedChar .start pieces.flatten).plain.length :=
      ho'.block.plainchar
    rw [hcnt]
    exact ⟨ho'.plain_eq, ho'.block.behind⟩
  · rw [hrun'] at hrun
    cases hrun

end Spec

section Reads

variable {signedChar : Bool} {code : List (Option UInt8)}

theorem base64DecodeBlock_of_decodeLoop {left : Int} {s s' : Decoding}
    (h : s.decodeLoop signedChar code left = .ok s') (d : Decoded) :
    ∃ d', base64DecodeBlock signedChar code left d = .ok d' := by
  induction code generalizing left s d with
  | nil =>
      rw [Decoding.decodeLoop] at h
      split at h
      · next hleft => exact ⟨d, if_pos hleft⟩
      · cases h
  | cons byte rest ih =>
      by_cases hleft : left = 0
      · rw [base64DecodeBlock.eq_def]
        exact ⟨d, if_pos hleft⟩
      · rw [Decoding.decodeLoop.eq_def] at h
        replace h := (if_neg hleft).symm.trans h
        rw [base64DecodeBlock.eq_def]
        dsimp only
        rw [if_neg hleft]
        cases byte with
        | none => cases h
        | some byte =>
            obtain ⟨s₁, -, hrest⟩ := exists_ok_of_bind h
            exact ih hrest _

/-- A call that stays in its output has read what it was given. -/
theorem base64DecodeBlock_of_decodeBlock {length : Int} {o o' : Output}
    (h : decodeBlock signedChar code length o = .ok o') (d : Decoded) :
    ∃ d', base64DecodeBlock signedChar code length d = .ok d' := by
  obtain ⟨s, -, hrun⟩ := exists_ok_of_bind h
  obtain ⟨s', hrun, -⟩ := exists_ok_of_bind hrun
  exact base64DecodeBlock_of_decodeLoop hrun d

end Reads

end LinuxCodeDemos.NailPrinter

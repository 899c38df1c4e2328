/-
  LinuxCodeDemos.MiniHttp.GetLine

  `get_line` of the mini HTTP server.

  It takes one byte at a time from the socket, leaves out carriage returns and stops behind a
  newline, at the end of the buffer, when the client is gone or when a read fails.  Only the newline
  writes the terminating NUL (`Result.last`): with the other ends, the byte behind the text is what
  the buffer held there before.
-/

import LinuxCodeDemos.Lib.Memory
import LinuxCodeDemos.Lib.Run

namespace LinuxCodeDemos.MiniHttp

open Lib

-- ============================================================================
-- `get_line`
-- ============================================================================

/-- What a `read` of one byte comes to: 1, 0 or -1. -/
inductive Read where
  | byte (ch : UInt8)
  | closed
  | failed
  deriving DecidableEq, Repr

def cr : UInt8 := 13
def lf : UInt8 := 10

/-- A call of `get_line`: it still waits for a read, or it has returned `count`. -/
inductive Line where
  | waiting
  | returned (count : Nat) (buf : List UInt8) (rest : List Read)
  deriving DecidableEq, Repr

/-- The loop of `get_line`, on the results that `read` gives. -/
def getLineLoop (size : Int) : List Read → Nat → List UInt8 → Except Fault Line
  | [], count, buf =>
      if (count : Int) < size - 1 then .ok .waiting else .ok (.returned count buf [])
  | r :: reads, count, buf =>
      if (count : Int) < size - 1 then
        match r with
        | .byte ch =>
            if ch = cr then getLineLoop size reads count buf
            else if ch = lf then do
              let buf ← store buf count [0]
              .ok (.returned count buf reads)
            else do
              let buf ← store buf count [ch]
              getLineLoop size reads (count + 1) buf
        | .failed => .ok (.returned count buf reads)
        | .closed => .ok (.returned count buf reads)
      else .ok (.returned count buf (r :: reads))

def getLine (reads : List Read) (buf : List UInt8) (size : Int) : Except Fault Line :=
  getLineLoop size reads 0 buf

-- ============================================================================
-- The text of a line
-- ============================================================================

/-- The bytes among the results. -/
def bytesOf (reads : List Read) : List UInt8 :=
  reads.filterMap fun r =>
    match r with
    | .byte ch => some ch
    | _ => none

/-- The bytes without carriage returns and without a newline at the end. -/
def textOf (reads : List Read) : List UInt8 :=
  let text := (bytesOf reads).filter (· ≠ cr)
  if text.getLast? = some lf then text.dropLast else text

/-- The text up to the first newline or the first read that gives no byte. -/
def lineText : List Read → List UInt8
  | .byte ch :: reads =>
      if ch = lf then [] else if ch = cr then lineText reads else ch :: lineText reads
  | _ => []

/-- The read that ends the line. -/
def lineEnd : List Read → Option Read
  | .byte ch :: reads => if ch = lf then some (.byte lf) else lineEnd reads
  | r :: _ => some r
  | [] => none

/-- What `get_line` promises when it returns: the text of what it took, as a C string. -/
def Line.IsCString (reads : List Read) (size : Int) : Line → Prop
  | .waiting => True
  | .returned count buf rest =>
      (count : Int) ≤ size - 1 ∧ (∃ taken, reads = taken ++ rest ∧ buf.take count = textOf taken) ∧
        buf[count]? = some 0

-- ============================================================================
-- The loop
-- ============================================================================

section Text

theorem textOf_cons {ch : UInt8} (hcr : ch ≠ cr) (hlf : ch ≠ lf) (reads : List Read) :
    textOf (.byte ch :: reads) = ch :: textOf reads := by
  have htext : (bytesOf (.byte ch :: reads)).filter (· ≠ cr)
      = ch :: (bytesOf reads).filter (· ≠ cr) :=
    List.filter_cons_of_pos (by simpa using hcr)
  rw [textOf, textOf, htext]
  cases (bytesOf reads).filter (· ≠ cr) with
  | nil =>
      rw [List.getLast?_singleton, if_neg (by simpa using hlf)]
      rfl
  | cons next rest =>
      rw [List.getLast?_cons_cons]
      split <;> rfl

end Text

section Loop

variable {size : Int} {reads rest : List Read} {count n : Nat} {buf buf' : List UInt8}

/-- The line is within the buffer and ends with a newline, or is not at its end yet. -/
def Fits (size : Int) (reads : List Read) (count : Nat) : Prop :=
  (count + (lineText reads).length : Int) < size - 1 ∧
    (lineEnd reads = some (.byte lf) ∨ lineEnd reads = none)

/-- A call that has returned, from the state `count`, `buf` on: the text of what was taken stands in
    the buffer, and behind it the NUL or what was there before. -/
structure Result (size : Int) (reads : List Read) (count : Nat) (buf : List UInt8) (n : Nat)
    (buf' : List UInt8) (rest : List Read) : Prop where
  room : (n : Int) ≤ size - 1
  text : ∃ taken, reads = taken ++ rest ∧ n = count + (textOf taken).length ∧
    buf'.take n = buf.take count ++ textOf taken
  count_eq : n = min (size - 1).toNat (count + (lineText reads).length)
  last : Fits size reads count ∧ buf'[n]? = some 0 ∨
    ¬ Fits size reads count ∧ buf'[n]? = buf[n]?
  behind : ∀ i, n < i → buf'[i]? = buf[i]?

/-- A byte that belongs to the text is stored. -/
theorem Result.step {ch : UInt8} (hcr : ch ≠ cr) (hlf : ch ≠ lf) (hcount : count < buf.length)
    (h : Result size reads (count + 1) (buf.set count ch) n buf' rest) :
    Result size (.byte ch :: reads) count buf n buf' rest := by
  obtain ⟨taken, hreads, hn, htake⟩ := h.text
  have htext : lineText (.byte ch :: reads) = ch :: lineText reads := by
    rw [lineText, if_neg hlf, if_neg hcr]
  have hend : lineEnd (.byte ch :: reads) = lineEnd reads := by
    rw [lineEnd, if_neg hlf]
  have hfits : Fits size (.byte ch :: reads) count ↔ Fits size reads (count + 1) := by
    rw [Fits, Fits, htext, hend, List.length_cons]
    exact and_congr (by omega) Iff.rfl
  have hset : ∀ i, n ≤ i → (buf.set count ch)[i]? = buf[i]? :=
    fun i hi => List.getElem?_set_ne (by omega)
  refine ⟨h.room, ⟨.byte ch :: taken, by rw [hreads]; rfl, ?_, ?_⟩, ?_, ?_, ?_⟩
  · rw [textOf_cons hcr hlf, List.length_cons]
    omega
  · rw [htake, textOf_cons hcr hlf, List.take_add_one, List.getElem?_set_self hcount,
      List.take_set_of_le (Nat.le_refl _), List.append_assoc]
    rfl
  · rw [htext, List.length_cons, h.count_eq]
    omega
  · rw [hfits, ← hset n (Nat.le_refl n)]
    exact h.last
  · intro i hi
    rw [← hset i (by omega)]
    exact h.behind i hi

/-- A carriage return is left out. -/
theorem Result.skip (h : Result size reads count buf n buf' rest) :
    Result size (.byte cr :: reads) count buf n buf' rest := by
  obtain ⟨taken, hreads, hn, htake⟩ := h.text
  exact ⟨h.room, ⟨.byte cr :: taken, by rw [hreads]; rfl, hn, htake⟩, h.count_eq, h.last,
    h.behind⟩

/-- The buffer is full. -/
theorem Result.full (hcount : (count : Int) = size - 1) :
    Result size reads count buf count buf reads := by
  refine ⟨by omega, ⟨[], rfl, rfl, (List.append_nil _).symm⟩, by omega, .inr ⟨?_, rfl⟩,
    fun i _ => rfl⟩
  rintro ⟨hroom, -⟩
  omega

/-- The newline is replaced by the NUL. -/
theorem Result.newline (hcount : (count : Int) < size - 1) (hbuf : count < buf.length) :
    Result size (.byte lf :: reads) count buf count (buf.set count 0) reads := by
  refine ⟨by omega, ⟨[.byte lf], rfl, rfl, ?_⟩, ?_, .inl ⟨⟨?_, .inl rfl⟩, ?_⟩,
    fun i hi => List.getElem?_set_ne (by omega)⟩
  · rw [List.take_set_of_le (Nat.le_refl _)]
    exact (List.append_nil _).symm
  · show count = min _ (count + 0)
    omega
  · show (count + (0 : Nat) : Int) < size - 1
    omega
  · exact List.getElem?_set_self hbuf

/-- A read without a byte ends the call. -/
theorem Result.stop {r : Read} (hcount : (count : Int) < size - 1) (hr : ∀ ch, r ≠ .byte ch) :
    Result size (r :: reads) count buf count buf reads := by
  have htext : lineText (r :: reads) = [] := by
    cases r with
    | byte ch => exact absurd rfl (hr ch)
    | closed => rfl
    | failed => rfl
  have htaken : textOf [r] = [] := by
    cases r with
    | byte ch => exact absurd rfl (hr ch)
    | closed => rfl
    | failed => rfl
  refine ⟨by omega, ⟨[r], rfl, by rw [htaken]; rfl, by rw [htaken, List.append_nil]⟩, ?_,
    .inr ⟨?_, rfl⟩, fun i _ => rfl⟩
  · rw [htext, List.length_nil]
    omega
  · rintro ⟨-, hend⟩
    cases r with
    | byte ch => exact absurd rfl (hr ch)
    | closed => rcases hend with h | h <;> cases h
    | failed => rcases hend with h | h <;> cases h

theorem getLineLoop_full (h : ¬ (count : Int) < size - 1) :
    getLineLoop size reads count buf = .ok (.returned count buf reads) := by
  match reads with
  | [] => rw [getLineLoop, if_neg h]
  | .byte ch :: reads => rw [getLineLoop, if_neg h]
  | .closed :: reads => rw [getLineLoop, if_neg h]
  | .failed :: reads => rw [getLineLoop, if_neg h]

theorem getLineLoop_lf (hroom : (count : Int) < size - 1) (hbuf : count < buf.length) :
    getLineLoop size (.byte lf :: reads) count buf
      = .ok (.returned count (buf.set count 0) reads) := by
  rw [getLineLoop, if_pos hroom, if_neg (by decide), if_pos rfl, bind_of_ok (store_single hbuf 0)]

theorem getLineLoop_char {ch : UInt8} (hroom : (count : Int) < size - 1)
    (hbuf : count < buf.length) (hcr : ch ≠ cr) (hlf : ch ≠ lf) :
    getLineLoop size (.byte ch :: reads) count buf
      = getLineLoop size reads (count + 1) (buf.set count ch) := by
  rw [getLineLoop, if_pos hroom, if_neg hcr, if_neg hlf, bind_of_ok (store_single hbuf ch)]

/-- The loop waits at the end of the results, or it returns. -/
theorem getLineLoop_cases :
    ∀ (reads : List Read) (count : Nat) (buf : List UInt8), (count : Int) ≤ size - 1 →
      size ≤ buf.length →
      (getLineLoop size reads count buf = .ok .waiting ∧ Fits size reads count) ∨
        ∃ n buf' rest, getLineLoop size reads count buf = .ok (.returned n buf' rest) ∧
          Result size reads count buf n buf' rest := by
  intro reads
  induction reads with
  | nil =>
      intro count buf hcount hbuf
      rw [getLineLoop]
      split
      · next hroom => exact .inl ⟨rfl, by show (count + (0 : Nat) : Int) < _; omega, .inr rfl⟩
      · next hroom => exact .inr ⟨count, buf, [], rfl, .full (by omega)⟩
  | cons r reads ih =>
      intro count buf hcount hbuf
      by_cases hroom : (count : Int) < size - 1
      · cases r with
        | byte ch =>
            by_cases hcr : ch = cr
            · rw [hcr, getLineLoop, if_pos hroom, if_pos rfl]
              rcases ih count buf hcount hbuf with ⟨hloop, hfits⟩ | ⟨n, buf', rest, hloop, hresult⟩
              · exact .inl ⟨hloop, hfits⟩
              · exact .inr ⟨n, buf', rest, hloop, hresult.skip⟩
            · by_cases hlf : ch = lf
              · rw [hlf, getLineLoop_lf hroom (by omega)]
                exact .inr ⟨count, buf.set count 0, reads, rfl, .newline hroom (by omega)⟩
              · rw [getLineLoop_char hroom (by omega) hcr hlf]
                rcases ih (count + 1) (buf.set count ch) (by omega)
                  (by rw [List.length_set]; exact hbuf)
                  with ⟨hloop, hroom', hend⟩ | ⟨n, buf', rest, hloop, hresult⟩
                · refine .inl ⟨hloop, ?_, ?_⟩
                  · rw [lineText, if_neg hlf, if_neg hcr, List.length_cons]
                    omega
                  · rw [lineEnd, if_neg hlf]
                    exact hend
                · exact .inr ⟨n, buf', rest, hloop, hresult.step hcr hlf (by omega)⟩
        | closed =>
            rw [getLineLoop, if_pos hroom]
            exact .inr ⟨count, buf, reads, rfl, .stop hroom fun ch h => (by cases h)⟩
        | failed =>
            rw [getLineLoop, if_pos hroom]
            exact .inr ⟨count, buf, reads, rfl, .stop hroom fun ch h => (by cases h)⟩
      · exact .inr ⟨count, buf, r :: reads, getLineLoop_full hroom, .full (by omega)⟩

/-- The characters of a text are stored one after the other. -/
theorem getLineLoop_text :
    ∀ (text : List UInt8) (count : Nat) (buf : List UInt8), cr ∉ text → lf ∉ text →
      (count + text.length : Int) ≤ size - 1 → size ≤ buf.length →
      getLineLoop size (text.map .byte ++ reads) count buf
        = getLineLoop size reads (count + text.length) (splice buf count text) := by
  intro text
  induction text with
  | nil =>
      intro count buf _ _ _ _
      rw [splice_nil]
      rfl
  | cons ch text ih =>
      intro count buf hcr hlf hroom hbuf
      rw [List.length_cons] at hroom ⊢
      rw [List.map_cons, List.cons_append, getLineLoop_char (by omega) (by omega)
          (fun h => hcr (h ▸ List.mem_cons_self ..)) (fun h => hlf (h ▸ List.mem_cons_self ..)),
        ih (count + 1) (buf.set count ch) (fun h => hcr (List.mem_cons_of_mem _ h))
          (fun h => hlf (List.mem_cons_of_mem _ h)) (by omega)
          (by rw [List.length_set]; exact hbuf),
        splice_set (by rw [List.length_cons]; omega), Nat.add_assoc, Nat.add_comm 1]

end Loop

-- ============================================================================
-- The call
-- ============================================================================

/-- For every sequence of results, every content of the buffer and every size that the buffer has
    room for, `get_line` leaves a C string of what it took exactly if the text ends with a newline
    within the buffer (or is still awaited), or the byte behind the text was NUL before. -/
theorem getLine_isCString_iff (reads : List Read) (buf : List UInt8) (size : Int) (hsize : 1 ≤ size)
    (hbuf : size ≤ buf.length) :
    (∃ line, getLine reads buf size = .ok line ∧ line.IsCString reads size) ↔
      (((lineText reads).length : Int) < size - 1 ∧
          (lineEnd reads = some (.byte lf) ∨ lineEnd reads = none)) ∨
        buf[min (size - 1).toNat (lineText reads).length]? = some 0 := by
  have hfits : Fits size reads 0 ↔ ((lineText reads).length : Int) < size - 1 ∧
      (lineEnd reads = some (.byte lf) ∨ lineEnd reads = none) := by
    rw [Fits, Int.natCast_zero, Int.zero_add]
  rw [← hfits, getLine]
  rcases @getLineLoop_cases size reads 0 buf (by omega) hbuf with
    ⟨hloop, hfit⟩ | ⟨n, buf', rest, hloop, hresult⟩
  · exact iff_of_true ⟨.waiting, hloop, trivial⟩ (.inl hfit)
  · have hn := hresult.count_eq
    rw [Nat.zero_add] at hn
    obtain ⟨taken, hreads, -, htake⟩ := hresult.text
    rw [hloop, ← hn]
    refine ⟨?_, ?_⟩
    · rintro ⟨line, hline, hstring⟩
      cases hline
      rcases hresult.last with ⟨hfit, -⟩ | ⟨-, hold⟩
      · exact .inl hfit
      · exact .inr (hold ▸ hstring.2.2)
    · intro hcond
      refine ⟨_, rfl, hresult.room, ⟨taken, hreads, htake⟩, ?_⟩
      rcases hresult.last with ⟨-, hnul⟩ | ⟨hnofit, hold⟩
      · exact hnul
      · rw [hold]
        exact hcond.resolve_left hnofit

theorem getLine_isCString_request :
    ∃ line, getLine [.byte 71, .byte cr, .byte lf, .byte 72] [9, 9, 9] 3 = .ok line ∧
      line.IsCString [.byte 71, .byte cr, .byte lf, .byte 72] 3 :=
  (getLine_isCString_iff [.byte 71, .byte cr, .byte lf, .byte 72] [9, 9, 9] 3 (by decide)
    (by decide)).mpr (.inl ⟨by decide, .inl rfl⟩)

/-- The client is gone behind one byte: the rest of an earlier line still stands behind it. -/
theorem getLine_stale_tail :
    getLine [.byte 72, .closed] [71, 69, 84, 0] 4 = .ok (.returned 1 [72, 69, 84, 0] []) ∧
      ¬ ∃ line, getLine [.byte 72, .closed] [71, 69, 84, 0] 4 = .ok line ∧
        line.IsCString [.byte 72, .closed] 4 := by
  have hline : getLine [.byte 72, .closed] [71, 69, 84, 0] 4
      = .ok (.returned 1 [72, 69, 84, 0] []) := rfl
  refine ⟨hline, ?_⟩
  rintro ⟨line, hline', hstring⟩
  rw [hline] at hline'
  cases hline'
  exact absurd hstring.2.2 (by decide)

end LinuxCodeDemos.MiniHttp

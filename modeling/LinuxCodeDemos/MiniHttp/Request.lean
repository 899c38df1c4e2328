/-
  LinuxCodeDemos.MiniHttp.Request

  `do_http_request`: the request line, and the header lines up to an empty one.

  A line that is longer than the buffer comes in pieces of 511 bytes.  If its length is a
  multiple of 511 the last piece is empty, and the loop takes it for the empty line
  (`headerLoop_line`).
-/

import LinuxCodeDemos.MiniHttp.RequestLine

namespace LinuxCodeDemos.MiniHttp

open Lib

-- ============================================================================
-- `do_http_request`
-- ============================================================================

/-- A call gives back at most what it has not taken. -/
theorem length_rest_getLineLoop {size : Int} :
    ∀ (reads : List Read) (count : Nat) (buf : List UInt8) {n : Nat} {buf' : List UInt8}
      {rest : List Read}, getLineLoop size reads count buf = .ok (.returned n buf' rest) →
      rest.length + n ≤ reads.length + count := by
  intro reads
  induction reads with
  | nil =>
      intro count buf n buf' rest h
      rw [getLineLoop] at h
      split at h
      · cases h
      · cases h
        exact Nat.le_refl _
  | cons r reads ih =>
      intro count buf n buf' rest h
      by_cases hroom : (count : Int) < size - 1
      · cases r with
        | byte ch =>
            rw [getLineLoop, if_pos hroom] at h
            split at h
            · have hle := ih count buf h
              rw [List.length_cons]
              omega
            · split at h
              · obtain ⟨buf'', -, h⟩ := exists_ok_of_bind h
                cases h
                rw [List.length_cons]
                omega
              · obtain ⟨buf'', -, h⟩ := exists_ok_of_bind h
                have hle := ih (count + 1) buf'' h
                rw [List.length_cons]
                omega
        | closed =>
            rw [getLineLoop, if_pos hroom] at h
            cases h
            rw [List.length_cons]
            omega
        | failed =>
            rw [getLineLoop, if_pos hroom] at h
            cases h
            rw [List.length_cons]
            omega
      · rw [getLineLoop_full hroom] at h
        cases h
        exact Nat.le_refl _

/-- How far `do_http_request` has come: it waits for a read, or it is done. -/
inductive Served where
  | waiting
  | done (rest : List Read)
  deriving DecidableEq, Repr

/-- The loop over the header lines. -/
def headerLoop (reads : List Read) (buf : List UInt8) : Except Fault Served :=
  match _h : getLine reads buf 512 with
  | .error e => .error e
  | .ok .waiting => .ok .waiting
  | .ok (.returned len buf rest) => if 0 < len then headerLoop rest buf else .ok (.done rest)
termination_by reads.length
decreasing_by
  have hle := length_rest_getLineLoop _ _ _ _h
  omega

/-- `do_http_request` on the reads of a socket.  What it prints is left out. -/
def doHttpRequest (reads : List Read) : Except Fault Served := do
  match ← getLine reads (List.replicate 512 0) 512 with
  | .waiting => .ok .waiting
  | .returned len buf rest => do
      if 0 < len then
        let _ ← parseRequestLine buf
      headerLoop rest buf

section Headers

variable {reads rest : List Read} {buf buf' : List UInt8} {len : Nat}

theorem headerLoop_returned (h : getLine reads buf 512 = .ok (.returned len buf' rest)) :
    headerLoop reads buf = if 0 < len then headerLoop rest buf' else .ok (.done rest) := by
  rw [headerLoop]
  split
  · next e heq =>
    rw [h] at heq
    cases heq
  · next heq =>
    rw [h] at heq
    cases heq
  · next len' buf'' rest' heq =>
    rw [h, Except.ok.injEq, Line.returned.injEq] at heq
    obtain ⟨rfl, rfl, rfl⟩ := heq
    rfl

/-- The reads that a line comes to. -/
def lineReads (line : List UInt8) : List Read := line.map .byte ++ [.byte cr, .byte lf]

/-- A line that is shorter than the buffer is taken whole. -/
theorem getLine_short {line : List UInt8} (hcr : cr ∉ line) (hlf : lf ∉ line)
    (hlen : line.length < 511) (hbuf : buf.length = 512) :
    getLine (lineReads line ++ reads) buf 512
      = .ok (.returned line.length ((splice buf 0 line).set line.length 0) reads) := by
  have hsplice : (splice buf 0 line).length = 512 := by
    rw [splice_length (by omega), hbuf]
  rw [getLine, lineReads, List.append_assoc, getLineLoop_text line 0 buf hcr hlf (by omega)
    (by omega), Nat.zero_add]
  show getLineLoop 512 (.byte cr :: .byte lf :: reads) _ _ = _
  rw [getLineLoop, if_pos (by omega), if_pos rfl, getLineLoop_lf (by omega) (by omega)]

/-- A longer one is cut off. -/
theorem getLine_long {line : List UInt8} (hcr : cr ∉ line) (hlf : lf ∉ line)
    (hlen : 511 ≤ line.length) (hbuf : buf.length = 512) :
    getLine (lineReads line ++ reads) buf 512
      = .ok (.returned 511 (splice buf 0 (line.take 511))
          (lineReads (line.drop 511) ++ reads)) := by
  have htake : (line.take 511).length = 511 := by
    rw [List.length_take]
    omega
  have hsplit : lineReads line ++ reads
      = (line.take 511).map .byte ++ (lineReads (line.drop 511) ++ reads) := by
    rw [lineReads, lineReads, ← List.append_assoc, ← List.append_assoc, ← List.map_append,
      List.take_append_drop]
  rw [getLine, hsplit, getLineLoop_text _ 0 buf (fun h => hcr (List.mem_of_mem_take h))
    (fun h => hlf (List.mem_of_mem_take h)) (by omega) (by omega), Nat.zero_add, htake,
    getLineLoop_full (by omega)]

/-- A header line: an empty one, and one whose last piece is empty, ends the loop. -/
theorem headerLoop_line :
    ∀ (n : Nat) (line : List UInt8) (buf : List UInt8), line.length = n → cr ∉ line → lf ∉ line →
      buf.length = 512 →
      (line.length % 511 = 0 → headerLoop (lineReads line ++ reads) buf = .ok (.done reads)) ∧
        (line.length % 511 ≠ 0 → ∃ buf', buf'.length = 512 ∧
          headerLoop (lineReads line ++ reads) buf = headerLoop reads buf') := by
  intro n
  induction n using Nat.strongRecOn with
  | _ n ih =>
      intro line buf hn hcr hlf hbuf
      by_cases hshort : line.length < 511
      · have hbuf' : ((splice buf 0 line).set line.length 0).length = 512 := by
          rw [List.length_set, splice_length (by omega), hbuf]
        rw [headerLoop_returned (getLine_short hcr hlf hshort hbuf)]
        refine ⟨?_, ?_⟩
        · intro hmod
          rw [if_neg (by omega)]
        · intro hmod
          exact ⟨_, hbuf', if_pos (by omega)⟩
      · have hbuf' : (splice buf 0 (line.take 511)).length = 512 := by
          rw [splice_length (by rw [List.length_take]; omega), hbuf]
        have hdrop : (line.drop 511).length = line.length - 511 := List.length_drop
        have hmod : (line.length - 511) % 511 = line.length % 511 := by omega
        have hrest := ih (line.length - 511) (by omega) (line.drop 511) _ hdrop
          (fun h => hcr (List.mem_of_mem_drop h)) (fun h => hlf (List.mem_of_mem_drop h)) hbuf'
        rw [hdrop, hmod] at hrest
        rw [headerLoop_returned (getLine_long hcr hlf (by omega) hbuf), if_pos (by decide)]
        exact hrest

/-- The reads of some header lines, the empty line and what follows. -/
def headerReads (headers : List (List UInt8)) (further : List Read) : List Read :=
  headers.flatMap lineReads ++ (lineReads [] ++ further)

theorem length_headerReads (headers : List (List UInt8)) (further : List Read) :
    further.length < (headerReads headers further).length := by
  rw [headerReads, List.length_append, List.length_append]
  show _ < _ + (2 + _)
  omega

/-- A text without line ends. -/
def Plain (line : List UInt8) : Prop := cr ∉ line ∧ lf ∉ line

/-- The loop ends behind the empty line exactly if no header line ends it before. -/
theorem headerLoop_headers {further : List Read} :
    ∀ (headers : List (List UInt8)) (buf : List UInt8), (∀ l ∈ headers, Plain l) →
      buf.length = 512 →
      (headerLoop (headerReads headers further) buf = .ok (.done further) ↔
        ∀ l ∈ headers, l.length % 511 ≠ 0) := by
  intro headers
  induction headers with
  | nil =>
      intro buf _ hbuf
      obtain ⟨hend, -⟩ :=
        @headerLoop_line further 0 [] buf rfl List.not_mem_nil List.not_mem_nil hbuf
      exact iff_of_true (hend rfl) (List.forall_mem_nil _)
  | cons l headers ih =>
      intro buf hplain hbuf
      rw [List.forall_mem_cons] at hplain ⊢
      obtain ⟨⟨hcr, hlf⟩, hplain⟩ := hplain
      obtain ⟨hend, hnext⟩ :=
        @headerLoop_line (headerReads headers further) l.length l buf rfl hcr hlf hbuf
      have hsplit : headerReads (l :: headers) further
          = lineReads l ++ headerReads headers further := by
        rw [headerReads, List.flatMap_cons, List.append_assoc]
        rfl
      rw [hsplit]
      by_cases hmod : l.length % 511 = 0
      · -- the loop has stopped in front of the lines that follow
        rw [hend hmod]
        refine iff_of_false (fun heq => ?_) fun hand => hand.1 hmod
        have hlen := length_headerReads headers further
        rw [Served.done.inj (Except.ok.inj heq)] at hlen
        exact Nat.lt_irrefl _ hlen
      · obtain ⟨buf', hbuf', hloop⟩ := hnext hmod
        rw [hloop, ih buf' hplain hbuf', and_iff_right hmod]

end Headers

-- ============================================================================
-- A request
-- ============================================================================

/-- A request: a request line, header lines, an empty line and further bytes. -/
structure HttpRequest where
  requestLine : List UInt8
  headers : List (List UInt8)
  further : List Read
  nonempty : ∀ l ∈ requestLine :: headers, l ≠ []
  plain : ∀ l ∈ requestLine :: headers, Plain l

/-- What is read of the socket for a request. -/
def HttpRequest.reads (r : HttpRequest) : List Read :=
  lineReads r.requestLine ++ headerReads r.headers r.further

/-- The url of the first 511 bytes of the request line can be copied, if it is looked for. -/
def UrlInside (requestLine : List UInt8) : Prop :=
  IsGet (requestLine.take 511) ∨ FalseGet (requestLine.take 511) → UrlFits (requestLine.take 511)

section Requests

/-- The parse of the request line comes to an end exactly if the url is inside the buffer. -/
theorem parseRequestLine_ok_iff {line : List UInt8} (h : line.length ≤ 511) :
    (∃ r, parseRequestLine (inArray 512 line) = .ok r) ↔
      (IsGet line ∨ FalseGet line → UrlFits line) := by
  obtain ⟨hother, hget⟩ := parseRequestLine_eq h
  obtain ⟨hfits, hoverrun⟩ := parseUrl_eq h
  rw [← takenForGet_iff h]
  by_cases hbranch : TakenForGet (methodText line)
  · rw [hget hbranch, forall_prop_of_true hbranch]
    by_cases hurl : UrlFits line
    · rw [bind_of_ok (hfits hurl)]
      exact iff_of_true ⟨_, rfl⟩ hurl
    · rw [hoverrun hurl]
      exact iff_of_false (by rintro ⟨r, hr⟩; cases hr) hurl
  · rw [hother hbranch]
    exact iff_of_true ⟨_, rfl⟩ fun h => absurd h hbranch

/-- The first line of a request in the cleared buffer. -/
theorem getLine_requestLine (r : HttpRequest) :
    ∃ lines, (∀ l ∈ lines, Plain l) ∧
      getLine r.reads (List.replicate 512 0) 512
        = .ok (.returned (min 511 r.requestLine.length) (inArray 512 (r.requestLine.take 511))
            (headerReads lines r.further)) ∧
      ((∀ l ∈ lines, l.length % 511 ≠ 0) ↔
        ∀ l ∈ r.requestLine :: r.headers, l.length % 511 ≠ 0) := by
  have hbuf : (List.replicate 512 (0 : UInt8)).length = 512 := List.length_replicate
  have hpos := List.length_pos_of_ne_nil (r.nonempty _ (List.mem_cons_self ..))
  obtain ⟨⟨hcr, hlf⟩, hheaders⟩ := List.forall_mem_cons.mp r.plain
  by_cases hshort : r.requestLine.length < 511
  · refine ⟨r.headers, hheaders, ?_, ?_⟩
    · rw [HttpRequest.reads, getLine_short hcr hlf hshort hbuf, splice_cleared,
        set_terminator (by omega), List.take_of_length_le (by omega), Nat.min_eq_right (by omega)]
    · rw [List.forall_mem_cons, and_iff_right (by omega)]
  · have hsplit : headerReads (r.requestLine.drop 511 :: r.headers) r.further
        = lineReads (r.requestLine.drop 511) ++ headerReads r.headers r.further := by
      rw [headerReads, List.flatMap_cons, List.append_assoc]
      rfl
    have hmod : (r.requestLine.drop 511).length % 511 = r.requestLine.length % 511 := by
      rw [List.length_drop]
      omega
    refine ⟨r.requestLine.drop 511 :: r.headers, ?_, ?_, ?_⟩
    · exact List.forall_mem_cons.mpr ⟨⟨fun h => hcr (List.mem_of_mem_drop h),
        fun h => hlf (List.mem_of_mem_drop h)⟩, hheaders⟩
    · rw [HttpRequest.reads, getLine_long hcr hlf (by omega) hbuf, splice_cleared, hsplit,
        Nat.min_eq_left (by omega)]
    · rw [List.forall_mem_cons, List.forall_mem_cons, hmod]

/-- For every request, `do_http_request` takes exactly the bytes up to the empty line from the
    socket if and only if no line has a length that is a multiple of 511 and the url of the request
    line is copied from inside the buffer. -/
theorem doHttpRequest_exact_iff (r : HttpRequest) :
    doHttpRequest r.reads = .ok (.done r.further) ↔
      (∀ l ∈ r.requestLine :: r.headers, l.length % 511 ≠ 0) ∧ UrlInside r.requestLine := by
  obtain ⟨lines, hplain, hline, hlines⟩ := getLine_requestLine r
  have htake : (r.requestLine.take 511).length ≤ 511 := List.length_take_le _ _
  have hparse := parseRequestLine_ok_iff htake
  have hpos := List.length_pos_of_ne_nil (r.nonempty _ (List.mem_cons_self ..))
  have hloop := @headerLoop_headers r.further lines (inArray 512 (r.requestLine.take 511)) hplain
    (length_inArray (by omega))
  rw [UrlInside, ← hparse, ← hlines, ← hloop, doHttpRequest, bind_of_ok hline]
  simp only
  rw [if_pos (by omega)]
  refine ⟨?_, ?_⟩
  · intro h
    obtain ⟨req, hreq, h⟩ := exists_ok_of_bind h
    exact ⟨h, req, hreq⟩
  · rintro ⟨h, req, hreq⟩
    rw [bind_of_ok hreq]
    exact h

end Requests

/-- A request line of 511 letters and no header lines. -/
def longRequest : HttpRequest where
  requestLine := List.replicate 511 120
  headers := []
  further := []
  nonempty := List.forall_mem_singleton.mpr fun h =>
    absurd (congrArg List.length h) (by rw [List.length_replicate]; decide)
  plain := List.forall_mem_singleton.mpr
    ⟨fun h => absurd (List.eq_of_mem_replicate h) (by decide),
      fun h => absurd (List.eq_of_mem_replicate h) (by decide)⟩

/-- The end of the long line is taken for the empty line, which stays in the socket. -/
theorem doHttpRequest_long :
    doHttpRequest longRequest.reads = .ok (.done [.byte cr, .byte lf]) ∧
      ¬ doHttpRequest longRequest.reads = .ok (.done longRequest.further) := by
  have hlen : longRequest.requestLine.length = 511 := List.length_replicate
  obtain ⟨hcr, hlf⟩ := longRequest.plain _ (List.mem_cons_self ..)
  have hbuf : (List.replicate 512 (0 : UInt8)).length = 512 := List.length_replicate
  have hline := @getLine_long (headerReads [] []) _ _ hcr hlf (Nat.le_of_eq hlen.symm) hbuf
  have htake : longRequest.requestLine.take 511 = List.replicate 511 120 :=
    List.take_of_length_le (Nat.le_of_eq hlen)
  have hdrop : longRequest.requestLine.drop 511 = [] := List.drop_eq_nil_of_le (Nat.le_of_eq hlen)
  have hword : word (List.replicate 511 120) = List.replicate 511 120 := List.takeWhile_replicate
  have hlower : ¬ lower ((List.replicate 511 120).take 3) = lower getName := by
    rw [List.take_replicate]
    decide
  obtain ⟨req, hreq⟩ := (@parseRequestLine_ok_iff (List.replicate 511 120)
    (Nat.le_of_eq List.length_replicate)).mpr (by
      rw [IsGet, FalseGet, hword]
      rintro (hget | ⟨hshort, -⟩ | ⟨hthree, -⟩)
      · exact absurd (length_eq_of_lower hget) (by rw [List.length_replicate]; decide)
      · rw [List.length_replicate] at hshort
        omega
      · exact absurd hthree hlower)
  have hloop := (@headerLoop_line (headerReads [] []) 0 []
    (inArray 512 (List.replicate 511 120)) rfl List.not_mem_nil List.not_mem_nil
    (length_inArray (by rw [List.length_replicate]; decide))).1 rfl
  have hdone : doHttpRequest longRequest.reads = .ok (.done [.byte cr, .byte lf]) := by
    rw [htake, hdrop, splice_cleared] at hline
    rw [doHttpRequest]
    refine (bind_of_ok hline).trans ?_
    show (parseRequestLine _ >>= fun _ => headerLoop _ _) = _
    rw [bind_of_ok hreq]
    exact hloop
  refine ⟨hdone, fun h => ?_⟩
  rw [hdone] at h
  cases h

end LinuxCodeDemos.MiniHttp

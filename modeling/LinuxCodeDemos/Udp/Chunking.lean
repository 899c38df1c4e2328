/-
  LinuxCodeDemos.Udp.Chunking

  The ring reassembler does not depend on how a stream of pieces is chopped.

  Between two calls the ring holds the beginning of one piece (`Pending`): a
  cut may fall inside the sync word, the header or the data, but what is whole
  has been consumed.  `split_stream` is the cutting lemma; `Awaiting` is the state
  between two calls, and `mergeEx_chunks` carries it through every chunk of a
  group.
-/

import LinuxCodeDemos.Udp.RoundTrip

namespace LinuxCodeDemos.Udp

open Lib

-- ============================================================================
-- Cutting a stream of pieces
-- ============================================================================

/-- Any beginning of a stream is some whole pieces and a pending beginning of
    the next one. -/
theorem split_stream {ps : List Piece} {bs rest : List UInt8} (h : bs ++ rest = stream ps) :
    ∃ done later tail, ps = done ++ later ∧ bs = stream done ++ tail ∧ Pending tail later := by
  induction ps generalizing bs with
  | nil =>
      obtain ⟨rfl, -⟩ := List.append_eq_nil_iff.mp h
      exact ⟨[], [], [], rfl, rfl, rfl⟩
  | cons p ps ih =>
      rw [stream_cons] at h
      by_cases hlen : p.bytes.length ≤ bs.length
      · -- the first piece is whole
        obtain ⟨bs', rfl⟩ : p.bytes <+: bs :=
          List.prefix_of_prefix_length_le ⟨stream ps, rfl⟩ ⟨rest, h⟩ hlen
        rw [List.append_assoc] at h
        obtain ⟨done, later, tail, rfl, rfl, hpend⟩ := ih (List.append_cancel_left h)
        exact ⟨p :: done, later, tail, rfl, by rw [stream_cons, List.append_assoc], hpend⟩
      · refine ⟨[], p :: ps, bs, rfl, rfl, ?_, by omega⟩
        exact List.prefix_of_prefix_length_le ⟨rest, h⟩ ⟨stream ps, rfl⟩ (by omega)

/-- Nothing is left to come only when nothing is pending. -/
theorem Pending.eq_nil {tail : List UInt8} {later : List Piece} (h : Pending tail later)
    (hall : tail = stream later) : later = [] := by
  cases later with
  | nil => rfl
  | cons p later =>
      have hlt := h.2
      have hlen := congrArg List.length hall
      rw [stream_cons, List.length_append] at hlen
      omega

/-- How many of the first `n` bytes of a stream wait in the ring. -/
def heldBytes : List Piece → Nat → Nat
  | [], n => n
  | p :: ps, n => if p.bytes.length ≤ n then heldBytes ps (n - p.bytes.length) else n

theorem heldBytes_done (done later : List Piece) (n : Nat) :
    heldBytes (done ++ later) ((stream done).length + n) = heldBytes later n := by
  induction done with
  | nil => simp
  | cons p done ih =>
      rw [List.cons_append, heldBytes, stream_cons, List.length_append, if_pos (by omega),
        show p.bytes.length + (stream done).length + n - p.bytes.length
          = (stream done).length + n by omega, ih]

theorem heldBytes_pending {tail : List UInt8} {later : List Piece} (h : Pending tail later) :
    heldBytes later tail.length = tail.length := by
  cases later with
  | nil => rfl
  | cons p later => rw [heldBytes, if_neg (by have := h.2; omega)]

/-- At most one byte short of a piece is ever held. -/
theorem heldBytes_lt {ps : List Piece} {bound n : Nat} (hpos : 0 < bound)
    (hps : ∀ p ∈ ps, p.bytes.length ≤ bound) (hn : n ≤ (stream ps).length) :
    heldBytes ps n < bound := by
  induction ps generalizing n with
  | nil =>
      rw [stream_nil, List.length_nil] at hn
      rw [heldBytes]
      omega
  | cons p ps ih =>
      rw [stream_cons, List.length_append] at hn
      rw [heldBytes]
      split
      · exact ih (fun q hq => hps q (List.mem_cons_of_mem _ hq)) (by omega)
      · have := hps p (List.mem_cons_self ..)
        omega

/-- Every chunk fits the free space of the ring at the time it arrives, when
    `held` bytes of the first of `ps` are waiting. -/
def ChunksFit (capacity : Nat) (ps : List Piece) (held : Nat) (chunks : List (List UInt8)) :
    Prop :=
  ∀ before chunk after, chunks = before ++ chunk :: after →
    heldBytes ps (held + before.flatten.length) + chunk.length ≤ capacity

theorem ChunksFit.tail {capacity : Nat} {done later : List Piece} {pend tail chunk : List UInt8}
    {chunks : List (List UInt8)}
    (h : ChunksFit capacity (done ++ later) pend.length (chunk :: chunks))
    (hsplit : pend ++ chunk = stream done ++ tail) :
    ChunksFit capacity later tail.length chunks := by
  intro before c after heq
  have hc := h (chunk :: before) c after (by rw [heq, List.cons_append])
  have hlen := congrArg List.length hsplit
  rw [List.length_append, List.length_append] at hlen
  rw [List.flatten_cons, List.length_append, ← Nat.add_assoc, hlen, Nat.add_assoc,
    heldBytes_done] at hc
  exact hc

-- ============================================================================
-- A whole group, chunk by chunk
-- ============================================================================

/-- Between two calls: the pieces `w` of a group have been taken, `ps` are to
    come, and the ring holds the beginning `pend` of the first of them. -/
structure Awaiting (ts tp : Nat) (h : UdpPiece) (w ps : List Piece) (pend : List UInt8) : Prop where
  window : WindowOf ts tp ps
  ne_nil : ps ≠ []
  count : w.length + ps.length = tp
  group : OpenGroup h.toRecvGroup ts tp w
  ring : RingInv h.circularBuffer pend
  pending : Pending pend ps
  reach : h.circularBuffer.begIndex + (stream ps).length + headSize ≤ intMax

section Chunks

variable {ts tp : Nat} {h : UdpPiece} {w ps : List Piece} {pend chunk : List UInt8}

/-- A call on a chunk that fits takes the pieces that are whole. -/
theorem Awaiting.call (ha : Awaiting ts tp h w ps pend) {rest : List UInt8}
    (hall : pend ++ chunk ++ rest = stream ps)
    (hfit : pend.length + chunk.length ≤ h.circularBuffer.capacity) {done later : List Piece}
    {tail : List UInt8} (hsplit : pend ++ chunk = stream done ++ tail)
    (htail : Pending tail later) :
    RingOutcome h (h.circularBuffer.begIndex + (pend.length + chunk.length))
      ((acceptAll ringBad h.toRecvGroup done 0).map fun x => (x.1, stream x.2.1 ++ tail, x.2.2))
      (mergeExCall h chunk) := by
  have hlens := congrArg List.length hall
  rw [List.length_append, List.length_append] at hlens
  have hroom : Headroom h.circularBuffer chunk.length := by
    have hs := ha.ring.size
    have hreach := ha.reach
    unfold Headroom
    omega
  exact udpPieceMergeEx_stream ha.ring hroom hfit hsplit htail

/-- The last chunk completes the count and empties the ring. -/
theorem Awaiting.last_chunk (ha : Awaiting ts tp h w ps pend) (hall : pend ++ chunk = stream ps)
    (hfit : pend.length + chunk.length ≤ h.circularBuffer.capacity) :
    ∃ h', mergeExCall h chunk
        = .ok (h', codeAfter ringBad 0 (some (dataTotal (w ++ ps) == ts))) ∧
      h'.toRecvGroup = closedOf ts (w ++ ps) ∧ RingInv h'.circularBuffer [] ∧
      h'.circularBuffer.capacity = h.circularBuffer.capacity := by
  have hcall := ha.call (show pend ++ chunk ++ [] = stream ps by rw [List.append_nil, hall]) hfit
    (show pend ++ chunk = stream ps ++ [] by rw [List.append_nil, hall]) (show Pending [] [] from rfl)
  have hpos : 0 < ps.length := List.length_pos_iff.mpr ha.ne_nil
  have hcount := ha.count
  rw [acceptAll_close ha.window ha.group (by omega) hcount] at hcall
  obtain ⟨rb, hrun, hring, hcap, -⟩ := hcall
  exact ⟨_, hrun, rfl, hring, hcap⟩

/-- A chunk with more to come returns `0`, and the group goes on. -/
theorem Awaiting.open_chunk (ha : Awaiting ts tp h w ps pend) {rest : List UInt8}
    (hall : pend ++ chunk ++ rest = stream ps) (hrest : rest ≠ [])
    (hfit : pend.length + chunk.length ≤ h.circularBuffer.capacity) :
    ∃ h' done later tail, ps = done ++ later ∧ pend ++ chunk = stream done ++ tail ∧
      tail ++ rest = stream later ∧ mergeExCall h chunk = .ok (h', 0) ∧
      Awaiting ts tp h' (w ++ done) later tail ∧
      h'.circularBuffer.capacity = h.circularBuffer.capacity := by
  obtain ⟨done, later, tail, rfl, hsplit, htail⟩ := split_stream hall
  have hcall := ha.call hall hfit hsplit htail
  have hlater : tail ++ rest = stream later := by
    rw [hsplit, stream_append, List.append_assoc] at hall
    exact List.append_cancel_left hall
  have hlne : later ≠ [] := by
    intro hl
    rw [hl, stream_nil] at hlater
    exact hrest (List.append_eq_nil_iff.mp hlater).2
  have hpos : 0 < later.length := List.length_pos_iff.mpr hlne
  have hcount := ha.count
  rw [List.length_append] at hcount
  obtain ⟨g, hacc, hopen⟩ := acceptAll_open ringBad 0
    (fun p hp => ha.window p (List.mem_append_left _ hp)) ha.group
    (show w.length + done.length < tp by omega)
  rw [hacc] at hcall
  obtain ⟨rb, hrun, hring, hcap, hbeg⟩ := hcall
  rw [stream_nil, List.nil_append] at hring hbeg
  refine ⟨_, done, later, tail, rfl, hsplit, hlater, hrun, ?_, hcap⟩
  refine ⟨fun p hp => ha.window p (List.mem_append_right _ hp), hlne,
    by rw [List.length_append]; omega, hopen, hring, htail, ?_⟩
  -- the ring's end has not come further than the stream
  have hreach := ha.reach
  have hlens := congrArg List.length hall
  have hlens' := congrArg List.length hlater
  rw [List.length_append, List.length_append] at hlens
  rw [List.length_append] at hlens'
  show rb.begIndex + _ + _ ≤ _
  omega

/-- Chunks of the remaining pieces of a group: `0` until the last chunk, which
    completes the count and empties the ring. -/
theorem mergeEx_chunks (chunks : List (List UInt8)) :
    ∀ {h : UdpPiece} {w ps : List Piece} {pend : List UInt8}, Awaiting ts tp h w ps pend →
      pend ++ chunks.flatten = stream ps → (∀ c ∈ chunks, c ≠ []) →
      ChunksFit h.circularBuffer.capacity ps pend.length chunks →
      ∃ h', runOps mergeExCall h chunks
          = .ok (h', List.replicate (chunks.length - 1) 0
              ++ [codeAfter ringBad 0 (some (dataTotal (w ++ ps) == ts))]) ∧
        h'.toRecvGroup = closedOf ts (w ++ ps) ∧ RingInv h'.circularBuffer [] ∧
        h'.circularBuffer.capacity = h.circularBuffer.capacity := by
  induction chunks with
  | nil =>
      intro h w ps pend ha hall _ _
      rw [List.flatten_nil, List.append_nil] at hall
      exact absurd (ha.pending.eq_nil hall) ha.ne_nil
  | cons chunk chunks ih =>
      intro h w ps pend ha hall hchunks hfits
      have hfit : pend.length + chunk.length ≤ h.circularBuffer.capacity := by
        have h0 := hfits [] chunk chunks rfl
        rwa [List.flatten_nil, List.length_nil, Nat.add_zero, heldBytes_pending ha.pending] at h0
      cases chunks with
      | nil =>
          rw [List.flatten_singleton] at hall
          obtain ⟨h', hrun, hclosed⟩ := ha.last_chunk hall hfit
          exact ⟨h', runOps_cons hrun rfl, hclosed⟩
      | cons c cs =>
          rw [List.flatten_cons, ← List.append_assoc] at hall
          have hrest : (c :: cs).flatten ≠ [] := by
            rw [List.flatten_cons]
            intro hnil
            exact hchunks c (by simp) (List.append_eq_nil_iff.mp hnil).1
          obtain ⟨h₁, done, later, tail, rfl, hsplit, hlater, hrun₁, ha₁, hcap₁⟩ :=
            ha.open_chunk hall hrest hfit
          obtain ⟨h', hrun, hg, hring, hcap⟩ := ih ha₁ hlater
            (fun c' hc' => hchunks c' (List.mem_cons_of_mem _ hc'))
            (by rw [hcap₁]; exact hfits.tail hsplit)
          rw [List.append_assoc] at hrun hg
          exact ⟨h', runOps_cons hrun₁ hrun, hg, hring, hcap.trans hcap₁⟩

end Chunks

/-- The pieces of a payload take at most 524 bytes each and 67071 in all. -/
theorem Payload.stream_bounds {P : Payload} {is : List (Fin P.count)}
    (his : is.Perm (List.finRange P.count)) :
    (∀ p ∈ is.map P.piece, p.bytes.length ≤ 524) ∧ (stream (is.map P.piece)).length ≤ 67071 := by
  refine ⟨?_, ?_⟩
  · intro p hp
    obtain ⟨i, -, rfl⟩ := List.mem_map.mp hp
    exact P.piece_bytes_le i
  · have h1 := P.le
    have h2 := P.count_le
    rw [stream_length, Payload.dataTotal_of_perm his, Payload.length_of_perm his]
    simp only [headSize]
    omega

/-- Chunks of at most `capacity - 523` bytes always fit. -/
theorem chunksFit_of_le {capacity : Nat} {ps : List Piece} {chunks : List (List UInt8)}
    (hps : ∀ p ∈ ps, p.bytes.length ≤ 524) (hall : chunks.flatten = stream ps)
    (hcap : 524 ≤ capacity) (hchunks : ∀ c ∈ chunks, c.length ≤ capacity - 523) :
    ChunksFit capacity ps 0 chunks := by
  intro before chunk after heq
  have hc := hchunks chunk (by rw [heq]; simp)
  have hheld := heldBytes_lt (n := 0 + before.flatten.length) (show 0 < 524 by omega) hps (by
    rw [← hall, heq, List.flatten_append, List.length_append]
    omega)
  omega

/-- Chunking independence.  The pieces of a payload in any order, as one byte
    stream chopped into non-empty chunks of at most `capacity - 523` bytes, fed
    to `udp_piece_merge_ex` on a freshly reset handle: `0` before the last
    chunk, `1` on the last, the payload in `recv_buf` and an empty ring. -/
theorem udpPieceMergeEx_chunking (snd rcv : UdpPiece) (P : Payload) (q : List UInt8)
    (hmalloc : rcv.heap = []) (hring : RingInv rcv.circularBuffer q)
    (hcap : 524 ≤ rcv.circularBuffer.capacity) :
    ∃ datagrams, cutDatagrams snd P.bytes = .ok datagrams ∧
      ∀ (order chunks : List (List UInt8)), order.Perm datagrams →
        chunks.flatten = order.flatten → (∀ c ∈ chunks, c ≠ []) →
        (∀ c ∈ chunks, c.length ≤ rcv.circularBuffer.capacity - 523) →
        ∃ h', runOps mergeExCall (udpPieceReset rcv) chunks
            = .ok (h', List.replicate (chunks.length - 1) 0 ++ [1]) ∧
          h'.recvLen = P.bytes.length ∧ recvFrame h' = P.bytes.map some ∧
          circularBufferSize h'.circularBuffer = 0 := by
  refine ⟨_, cutDatagrams_eq snd P, fun order chunks hperm hchop hne hle => ?_⟩
  obtain ⟨is, his, rfl⟩ := P.exists_order hperm
  have htotal := Payload.dataTotal_of_perm his
  have hlen := Payload.length_of_perm his
  obtain ⟨hsize, hbytes⟩ := Payload.stream_bounds his
  have hall : chunks.flatten = stream (is.map P.piece) := by
    rw [hchop, stream, List.flatMap]
  have hpos := P.count_pos
  have hstart : Awaiting P.bytes.length P.count (udpPieceReset rcv) [] (is.map P.piece) [] := by
    refine ⟨P.windowOf_map is, ?_, by rw [List.length_nil, Nat.zero_add, hlen],
      openGroup_reset hmalloc _ _, circularBufferReset_spec hring, pending_nil, ?_⟩
    · intro hnil
      rw [hnil, List.length_nil] at hlen
      omega
    · show 0 + _ + _ ≤ _
      simp only [intMax, headSize]
      omega
  obtain ⟨h', hrun, hg, hring', -⟩ := mergeEx_chunks chunks hstart hall hne
    (chunksFit_of_le hsize hall hcap hle)
  rw [List.nil_append] at hrun hg
  obtain ⟨h1, h2⟩ := Payload.frame_of_closed
    (fun i => his.symm.subset (List.mem_finRange i)) htotal hg
  refine ⟨h', ?_, h1, h2, hring'.size⟩
  rw [hrun, htotal]
  simp [codeAfter]

/-- The one piece of a three-byte payload, byte by byte through the smallest
    ring. -/
theorem udpPieceMergeEx_chunking_bytewise :
    ∃ h', runOps mergeExCall (udpPieceReset (zeroedHandle 524))
        ([0xAF, 0xAE, 0, 3, 0, 1, 0, 0, 0, 3, 0, 0, 1, 2, 3].map fun b => [b])
          = .ok (h', List.replicate 14 0 ++ [1]) ∧
      h'.recvLen = 3 ∧ recvFrame h' = [some 1, some 2, some 3] ∧
      circularBufferSize h'.circularBuffer = 0 := by
  obtain ⟨datagrams, hcut, hall⟩ := udpPieceMergeEx_chunking (zeroedHandle 524)
    (zeroedHandle 524) ⟨[1, 2, 3], by decide, by decide⟩ [] rfl
    (emptyRing_zeroed (by decide)).1 (by decide)
  have hsent : datagrams = [[0xAF, 0xAE, 0, 3, 0, 1, 0, 0, 0, 3, 0, 0, 1, 2, 3]] := by
    rw [cutDatagrams_eq _ ⟨[1, 2, 3], by decide, by decide⟩] at hcut
    cases hcut
    decide
  exact hall datagrams _ (List.Perm.refl _) (by rw [hsent]; decide) (by decide) (by decide)

end LinuxCodeDemos.Udp

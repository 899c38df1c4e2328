/-
  LinuxCodeDemos.Udp.EchoServer

  The receive loop of `echo_server` over a sequence of chunks.

  The loop delivers `recv_buf` when a call returns `1` and resets the handle
  after every non-zero result.  As long as a frame ends where a chunk ends, this
  delivers the frames one after the other: the reset then throws away an empty
  ring.  When the end of one frame and the beginning of the next share a chunk,
  the call goes on into the second frame before it returns, and what it has
  taken of it, or left of it in the ring, is lost in the reset.
-/

import Mathlib.Data.List.ReduceOption
import LinuxCodeDemos.Udp.Chunking

namespace LinuxCodeDemos.Udp

open Lib

-- ============================================================================
-- From calls to turns of the loop
-- ============================================================================

/-- The handle and the delivery of a turn whose call returned `code`. -/
def turnResult (h : UdpPiece) (code : Int) : UdpPiece × Option Block :=
  if code = 1 then (udpPieceReset h, some (recvFrame h))
  else if code = 0 then (h, none)
  else (udpPieceReset h, none)

theorem echoServerTurn_of_call {h h' : UdpPiece} {bs : List UInt8} {code : Int}
    (hcall : mergeExCall h bs = .ok (h', code)) :
    echoServerTurn h bs = .ok (turnResult h' code) := by
  rw [mergeExCall] at hcall
  simp only [echoServerTurn, hcall, bind, Except.bind]
  rfl

/-- A run of calls that return `0` up to the last one, as turns of the loop. -/
theorem echoServer_of_calls {code : Int} (chunks : List (List UInt8)) :
    ∀ {h h' : UdpPiece}, chunks ≠ [] →
      runOps mergeExCall h chunks = .ok (h', List.replicate (chunks.length - 1) 0 ++ [code]) →
      runOps echoServerTurn h chunks
        = .ok ((turnResult h' code).1,
            List.replicate (chunks.length - 1) none ++ [(turnResult h' code).2]) := by
  induction chunks with
  | nil => exact fun hne => absurd rfl hne
  | cons c cs ih =>
      intro h h' _ hrun
      obtain ⟨h₁, code₁, codes, hcall, hrest, hcodes⟩ := runOps_cons_inv hrun
      have hturn := echoServerTurn_of_call hcall
      cases cs with
      | nil =>
          cases hrest
          cases hcodes
          exact runOps_cons hturn rfl
      | cons c' cs =>
          -- not the last call: code 0, and the loop goes on with this handle
          rw [List.length_cons, List.length_cons, Nat.add_sub_cancel, List.replicate_succ,
            List.cons_append] at hcodes
          obtain ⟨rfl, rfl⟩ := List.cons.inj hcodes
          have hloop := ih (List.cons_ne_nil c' cs) hrest
          rw [List.length_cons, List.length_cons, Nat.add_sub_cancel, List.replicate_succ,
            List.cons_append]
          exact runOps_cons hturn hloop

-- ============================================================================
-- One frame
-- ============================================================================

theorem Payload.pieces_bounds (P : Payload) :
    (∀ p ∈ P.pieces, p.bytes.length ≤ 524) ∧ (stream P.pieces).length ≤ 67071 :=
  Payload.stream_bounds (List.Perm.refl _)

theorem Payload.pieces_ne_nil (P : Payload) : P.pieces ≠ [] := by
  intro hnil
  have hlen := P.pieces_length
  have := P.count_pos
  rw [hnil, List.length_nil] at hlen
  omega

/-- A freshly reset handle of this capacity. -/
structure FreshHandle (capacity : Nat) (h : UdpPiece) : Prop where
  ring : EmptyRing capacity h
  beg : h.circularBuffer.begIndex = 0
  totalSize : h.totalSize = 0
  heap : h.heap = []

theorem freshHandle_reset {capacity : Nat} {h : UdpPiece} {q : List UInt8}
    (hring : RingInv h.circularBuffer q) (hcap : h.circularBuffer.capacity = capacity)
    (hheap : h.heap = []) : FreshHandle capacity (udpPieceReset h) :=
  ⟨emptyRing_reset hring hcap, rfl, rfl, hheap⟩

/-- The chunks of one frame: nothing is delivered before the last chunk, which
    delivers the payload and leaves a fresh handle. -/
theorem echoServer_frame {capacity : Nat} {h : UdpPiece} (hfresh : FreshHandle capacity h)
    (P : Payload) {chunks : List (List UInt8)} (hall : chunks.flatten = stream P.pieces)
    (hne : ∀ c ∈ chunks, c ≠ []) (hfits : ChunksFit capacity P.pieces 0 chunks) :
    ∃ h', runOps echoServerTurn h chunks
        = .ok (h', List.replicate (chunks.length - 1) none ++ [some (P.bytes.map some)]) ∧
      FreshHandle capacity h' := by
  obtain ⟨⟨hinv, rfl⟩, hbeg, hts, hheap⟩ := hfresh
  have hopen : OpenGroup h.toRecvGroup P.bytes.length P.count [] :=
    ⟨.inr ⟨rfl, hheap, .inl hts⟩, by simp [WindowOf]⟩
  obtain ⟨-, hbytes⟩ := P.pieces_bounds
  have hstart : Awaiting P.bytes.length P.count h [] P.pieces [] :=
    ⟨P.windowOf_pieces, P.pieces_ne_nil, by rw [List.length_nil, Nat.zero_add, P.pieces_length],
      hopen, hinv, pending_nil, by rw [hbeg]; simp only [intMax, headSize]; omega⟩
  obtain ⟨h', hrun, hg, hring, hcap⟩ := mergeEx_chunks chunks hstart hall hne hfits
  rw [List.nil_append] at hrun hg
  rw [P.dataTotal_pieces, beq_self_eq_true] at hrun
  have hchunks : chunks ≠ [] := by
    intro hnil
    rw [hnil, List.flatten_nil] at hall
    have := congrArg List.length hall
    rw [stream_length, P.dataTotal_pieces, List.length_nil] at this
    have := P.pos
    omega
  have hloop := echoServer_of_calls chunks hchunks hrun
  obtain ⟨-, hframe⟩ := Payload.frame_of_closed (fun i => List.mem_finRange i)
    P.dataTotal_pieces hg
  refine ⟨udpPieceReset h', ?_, freshHandle_reset hring hcap (by rw [hg]; rfl)⟩
  rw [← hframe]
  exact hloop

-- ============================================================================
-- Two frames
-- ============================================================================

/-- Bytes before the end of a stream wait as they would without what follows. -/
theorem heldBytes_append {ps : List Piece} (qs : List Piece) {n : Nat}
    (h : n < (stream ps).length) : heldBytes (ps ++ qs) n = heldBytes ps n := by
  induction ps generalizing n with
  | nil => exact absurd h (Nat.not_lt_zero n)
  | cons p ps ih =>
      rw [stream_cons, List.length_append] at h
      rw [List.cons_append, heldBytes, heldBytes]
      split
      · exact ih (by omega)
      · rfl

/-- Chunks that fit on the way through two streams, and end the first one where
    a chunk ends, fit each of the two. -/
theorem ChunksFit.split {capacity : Nat} {ps qs : List Piece} {cs cs' : List (List UInt8)}
    (h : ChunksFit capacity (ps ++ qs) 0 (cs ++ cs')) (hne : ∀ c ∈ cs, c ≠ [])
    (hall : cs.flatten = stream ps) :
    ChunksFit capacity ps 0 cs ∧ ChunksFit capacity qs 0 cs' := by
  refine ⟨?_, ?_⟩
  · intro before c after heq
    have hc := h before c (after ++ cs') (by rw [heq, List.append_assoc, List.cons_append])
    have hpos : 0 < c.length := List.length_pos_iff.mpr (hne c (by rw [heq]; simp))
    rwa [heldBytes_append] at hc
    rw [← hall, heq, List.flatten_append, List.flatten_cons, List.length_append,
      List.length_append]
    omega
  · intro before c after heq
    have hc := h (cs ++ before) c after (by rw [heq, List.append_assoc])
    rwa [List.flatten_append, List.length_append, Nat.zero_add, hall, heldBytes_done,
      ← Nat.zero_add before.flatten.length] at hc

/-- Two frames back to back through the loop of `echo_server`: when no chunk has
    bytes of both, exactly the two payloads are delivered, in order. -/
theorem echoServer_backToBack (h₀ : UdpPiece) (q : List UInt8) (hmalloc : h₀.heap = [])
    (hring : RingInv h₀.circularBuffer q) (P Q : Payload) (chunks : List (List UInt8))
    (hall : chunks.flatten = stream (P.pieces ++ Q.pieces)) (hne : ∀ c ∈ chunks, c ≠ [])
    (hfits : ChunksFit h₀.circularBuffer.capacity (P.pieces ++ Q.pieces) 0 chunks)
    (hcut : ∃ before after, chunks = before ++ after ∧ before.flatten = stream P.pieces) :
    ∃ h' deliveries, runOps echoServerTurn (udpPieceReset h₀) chunks = .ok (h', deliveries) ∧
      deliveries.reduceOption = [P.bytes.map some, Q.bytes.map some] := by
  obtain ⟨before, after, rfl, hbefore⟩ := hcut
  have hafter : after.flatten = stream Q.pieces := by
    rw [List.flatten_append, stream_append, hbefore] at hall
    exact List.append_cancel_left hall
  have hneB : ∀ c ∈ before, c ≠ [] := fun c hc => hne c (List.mem_append_left _ hc)
  have hneA : ∀ c ∈ after, c ≠ [] := fun c hc => hne c (List.mem_append_right _ hc)
  obtain ⟨hfitB, hfitA⟩ := hfits.split hneB hbefore
  obtain ⟨h₁, hrun₁, hfresh₁⟩ :=
    echoServer_frame (freshHandle_reset hring rfl hmalloc) P hbefore hneB hfitB
  obtain ⟨h₂, hrun₂, -⟩ := echoServer_frame hfresh₁ Q hafter hneA hfitA
  refine ⟨h₂, _, runOps_append hrun₁ hrun₂, ?_⟩
  simp only [List.reduceOption_append, List.reduceOption_replicate_none,
    List.reduceOption_singleton, List.nil_append, Option.toList_some, List.singleton_append]

/-- Two one-byte payloads. -/
def zeroByte : Payload := ⟨[0], by decide, by decide⟩

def oneByte : Payload := ⟨[1], by decide, by decide⟩

/-- A chunk for each of the two. -/
theorem echoServer_backToBack_oneByte :
    ∃ h' deliveries,
      runOps echoServerTurn (udpPieceReset (zeroedHandle 1024))
        [stream zeroByte.pieces, stream oneByte.pieces] = .ok (h', deliveries) ∧
      deliveries.reduceOption = [[some 0], [some 1]] := by
  refine echoServer_backToBack (zeroedHandle 1024) [] rfl (emptyRing_zeroed (by omega)).1
    zeroByte oneByte [stream zeroByte.pieces, stream oneByte.pieces] (by decide) (by decide)
    (chunksFit_of_le ?_ (by decide) (by decide) (by decide))
    ⟨[stream zeroByte.pieces], [stream oneByte.pieces], rfl, by simp⟩
  intro p hp
  rcases List.mem_append.mp hp with hp | hp
  · exact zeroByte.pieces_bounds.1 p hp
  · exact oneByte.pieces_bounds.1 p hp

/-- Both frames in one chunk: the first is lost. -/
theorem echoServer_sharedChunk :
    (runOps echoServerTurn (udpPieceReset (zeroedHandle 64))
        [stream (zeroByte.pieces ++ oneByte.pieces)]).map (fun x => x.2.reduceOption)
      = .ok [[some 1]] := rfl

end LinuxCodeDemos.Udp

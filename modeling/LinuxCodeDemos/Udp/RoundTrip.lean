/-
  LinuxCodeDemos.Udp.RoundTrip

  Cutting a payload and merging its pieces back, in any order of arrival.

  The invariant over the calls is `OpenGroup`: after the pieces with indices
  `is` the counters are the length and the byte total of that window and the
  block holds exactly those pieces.  A permutation of all indices is a window
  whose total is the payload's size, so the last call reports success and the
  block holds the payload.
-/

import Mathlib.Data.List.Perm.Basic
import LinuxCodeDemos.Udp.Calls

namespace LinuxCodeDemos.Udp

open Lib

namespace Payload

variable (P : Payload)

theorem pieces_bytes :
    P.pieces.map Piece.bytes = (List.finRange P.count).map (fun i => (P.piece i).bytes) := by
  rw [pieces, List.map_map]
  rfl

/-- An arrival order of the sent datagrams is an order of the indices. -/
theorem exists_order {order : List (List UInt8)} (h : order.Perm (P.pieces.map Piece.bytes)) :
    ∃ is : List (Fin P.count), is.Perm (List.finRange P.count) ∧
      order = (is.map P.piece).map Piece.bytes := by
  rw [pieces_bytes] at h
  have hcomp := congrFun₂ (List.eq_map_comp_perm fun i => (P.piece i).bytes) order
    (List.finRange P.count)
  obtain ⟨is, rfl, hperm⟩ := hcomp.mpr h
  refine ⟨is, hperm, ?_⟩
  rw [List.map_map]
  rfl

variable {P}

/-- The window of all indices, in any order, carries the whole payload. -/
theorem dataTotal_of_perm {is : List (Fin P.count)} (h : is.Perm (List.finRange P.count)) :
    dataTotal (is.map P.piece) = P.bytes.length := by
  rw [← P.dataTotal_pieces, pieces, dataTotal, dataTotal]
  exact ((h.map P.piece).map fun p => p.data.length).sum_eq

theorem length_of_perm {is : List (Fin P.count)} (h : is.Perm (List.finRange P.count)) :
    (is.map P.piece).length = P.count := by
  rw [List.length_map, h.length_eq, List.length_finRange]

/-- What the receiver holds once a window with all indices is closed. -/
theorem frame_of_closed {h : UdpPiece} {is : List (Fin P.count)}
    (hall : ∀ i : Fin P.count, i ∈ is) (htotal : dataTotal (is.map P.piece) = P.bytes.length)
    (hg : h.toRecvGroup = closedOf P.bytes.length (is.map P.piece)) :
    h.recvLen = P.bytes.length ∧ recvFrame h = P.bytes.map some := by
  have hlen : h.recvLen = P.bytes.length := by rw [hg, ← htotal]; rfl
  refine ⟨hlen, ?_⟩
  rw [recvFrame, hlen, hg]
  exact P.assemble_take is hall

end Payload

/-- Fragmentation round trip.  The pieces of any payload, fed one per call to
    `udp_piece_merge` on a freshly reset handle in any order: `0` from every
    call but the last, `1` from the last, and the payload in `recv_buf`. -/
theorem udpPieceMerge_roundTrip (snd rcv : UdpPiece) (P : Payload) (hmalloc : rcv.heap = []) :
    ∃ datagrams, cutDatagrams snd P.bytes = .ok datagrams ∧
      ∀ order : List (List UInt8), order.Perm datagrams →
        ∃ h', runOps mergeCall (udpPieceReset rcv) order
            = .ok (h', List.replicate (order.length - 1) 0 ++ [1]) ∧
          h'.recvLen = P.bytes.length ∧ recvFrame h' = P.bytes.map some := by
  refine ⟨_, cutDatagrams_eq snd P, fun order hperm => ?_⟩
  obtain ⟨is, his, rfl⟩ := P.exists_order hperm
  have htotal := Payload.dataTotal_of_perm his
  have hlen := Payload.length_of_perm his
  obtain ⟨h', hrun, -, hg⟩ := mergeCall_takesPieces.run_close (P.windowOf_map is)
    (fun _ _ => trivial) (w := []) trivial (openGroup_reset hmalloc _ _) P.count_pos
    (by rw [List.length_nil, Nat.zero_add, hlen])
  rw [List.nil_append] at hrun hg
  refine ⟨h', ?_, Payload.frame_of_closed (fun i => his.symm.subset (List.mem_finRange i))
    htotal hg⟩
  rw [hrun, List.length_map, htotal]
  simp [codeAfter]

theorem length_uneven : (List.replicate 512 (1 : UInt8) ++ [2, 3]).length = 514 := by
  rw [List.length_append, List.length_replicate]
  rfl

/-- A full piece and one of two bytes. -/
def unevenPayload : Payload where
  bytes := List.replicate 512 1 ++ [2, 3]
  pos := by rw [length_uneven]; decide
  le := by rw [length_uneven]; decide

/-- They arrive in the wrong order. -/
theorem udpPieceMerge_roundTrip_swapped :
    ∃ first second,
      cutDatagrams (zeroedHandle 524) unevenPayload.bytes = .ok [first, second] ∧
      ∃ h', runOps mergeCall (udpPieceReset (zeroedHandle 524)) [second, first]
          = .ok (h', [0, 1]) ∧
        h'.recvLen = 514 ∧ recvFrame h' = unevenPayload.bytes.map some := by
  obtain ⟨datagrams, hcut, hmerge⟩ :=
    udpPieceMerge_roundTrip (zeroedHandle 524) (zeroedHandle 524) unevenPayload rfl
  have hlen : datagrams.length = 2 := by
    have hcount : unevenPayload.count = pieceCount 514 := congrArg pieceCount length_uneven
    rw [cutDatagrams_eq] at hcut
    rw [← Except.ok.inj hcut, List.length_map, Payload.pieces, List.length_map,
      List.length_finRange, hcount]
    rfl
  obtain ⟨first, second, rfl⟩ := List.length_eq_two.mp hlen
  obtain ⟨h', hrun, hrecv, hframe⟩ := hmerge [second, first] (List.Perm.swap first second [])
  exact ⟨first, second, hcut, h', hrun, hrecv.trans length_uneven, hframe⟩

end LinuxCodeDemos.Udp

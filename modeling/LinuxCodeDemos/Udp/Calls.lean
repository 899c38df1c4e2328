/-
  LinuxCodeDemos.Udp.Calls

  One call of either reassembler on a stream of pieces.

  `udpPieceMerge_stream` and `udpPieceMergeEx_stream` say what a call does when
  its bytes (for the ring: what it held and the new bytes) are whole pieces
  followed by the beginning of another.  `TakesPieces` is the common special
  case of one whole piece per call, so that results about deliveries of single
  pieces are proved once for both reassemblers.
-/

import LinuxCodeDemos.Udp.Group

namespace LinuxCodeDemos.Udp

open Lib

/-- `udp_piece_merge` on a datagram that fills its buffer. -/
def mergeCall (h : UdpPiece) (datagram : List UInt8) : Except Fault (UdpPiece × Int) :=
  udpPieceMerge h datagram datagram.length

/-- `udp_piece_merge_ex` on a datagram that fills its buffer. -/
def mergeExCall (h : UdpPiece) (datagram : List UInt8) : Except Fault (UdpPiece × Int) :=
  udpPieceMergeEx h datagram datagram.length

/-- The flat reassembler handles the pieces of a datagram in order. -/
theorem udpPieceMerge_stream (h : UdpPiece) (ps : List Piece) :
    mergeCall h (stream ps) =
      (acceptAll flatBad h.toRecvGroup ps 0).map
        (fun x => ({ h with toRecvGroup := x.1 }, x.2.2)) := by
  have hnil : Pending [] [] := rfl
  have hskip := skipSync_stream hnil ps
  have hwalk := walk_stream flatBad hnil.stops h.toRecvGroup ps 0
  rw [List.append_nil] at hskip hwalk
  rcases udpPieceMerge_cases h (Nat.le_refl (stream ps).length) with ⟨herr, hlen⟩ | hcall
  · -- no bytes, and then nothing is read at all
    cases ps with
    | nil => cases herr
    | cons p ps =>
        rw [List.take_length, hskip, stream_cons, List.length_append, Piece.bytes_length] at hlen
        simp only [headSize] at hlen
        omega
  · rw [List.take_length, hskip, hwalk] at hcall
    rw [mergeCall, hcall]
    cases acceptAll flatBad h.toRecvGroup ps 0 <;> rfl

/-- The ring reassembler handles the pieces that are whole and keeps the rest. -/
theorem udpPieceMergeEx_stream {h : UdpPiece} {q chunk tail : List UInt8} {ps later : List Piece}
    (hinv : RingInv h.circularBuffer q) (hroom : Headroom h.circularBuffer chunk.length)
    (hfit : q.length + chunk.length ≤ h.circularBuffer.capacity)
    (hsplit : q ++ chunk = stream ps ++ tail) (htail : Pending tail later) :
    RingOutcome h (h.circularBuffer.begIndex + (q.length + chunk.length))
      ((acceptAll ringBad h.toRecvGroup ps 0).map (fun x => (x.1, stream x.2.1 ++ tail, x.2.2)))
      (mergeExCall h chunk) := by
  have hspec := udpPieceMergeEx_spec hinv hroom hfit
  rwa [hsplit, skipSync_stream htail, walk_stream ringBad htail.stops] at hspec

-- ============================================================================
-- One whole piece per call
-- ============================================================================

/-- From a state satisfying `Inv`, `call` on the bytes of one piece (of those
    that are `ok`) does what `Piece.accept` says and keeps `Inv`. -/
def TakesPieces (call : UdpPiece → List UInt8 → Except Fault (UdpPiece × Int)) (bad : Int → Int)
    (Inv : UdpPiece → Prop) (ok : Piece → Prop) : Prop :=
  ∀ h p g verdict, Inv h → ok p → p.accept h.toRecvGroup = .ok (.taken g verdict) →
    ∃ h', call h p.bytes = .ok (h', codeAfter bad 0 verdict) ∧ h'.toRecvGroup = g ∧ Inv h'

theorem mergeCall_takesPieces :
    TakesPieces mergeCall flatBad (fun _ => True) (fun _ => True) := by
  intro h p g verdict _ _ hacc
  have hcall := udpPieceMerge_stream h [p]
  rw [stream_cons, stream_nil, List.append_nil, acceptAll, hacc] at hcall
  exact ⟨_, hcall, rfl, trivial⟩

/-- An empty ring of this capacity, small enough for the header reads. -/
def EmptyRing (capacity : Nat) (h : UdpPiece) : Prop :=
  RingInv h.circularBuffer [] ∧ h.circularBuffer.capacity = capacity

theorem mergeExCall_takesPieces {capacity : Nat} (hcap : capacity ≤ ringMax) :
    TakesPieces mergeExCall ringBad (EmptyRing capacity)
      (fun p => p.bytes.length ≤ capacity) := by
  rintro h p g verdict ⟨hinv, rfl⟩ hp hacc
  have hcall := udpPieceMergeEx_stream hinv
    (headroom_of_le hcap p.bytes.length) (by simpa using hp)
    (show [] ++ p.bytes = stream [p] ++ [] by simp) (show Pending [] [] from rfl)
  rw [acceptAll, hacc] at hcall
  obtain ⟨rb, h1, h2, h3, -⟩ := hcall
  exact ⟨_, h1, rfl, h2, h3⟩

theorem emptyRing_zeroed {capacity : Nat} (hpos : 1 ≤ capacity) :
    EmptyRing capacity (zeroedHandle capacity) :=
  circularBufferInit_sim hpos (show (List.replicate capacity 0).length = _ from
    List.length_replicate) rfl

/-- A reset empties the ring. -/
theorem emptyRing_reset {capacity : Nat} {h : UdpPiece} {q : List UInt8}
    (hinv : RingInv h.circularBuffer q) (hcap : h.circularBuffer.capacity = capacity) :
    EmptyRing capacity (udpPieceReset h) :=
  ⟨circularBufferReset_spec hinv, hcap⟩

section Deliveries

variable {call : UdpPiece → List UInt8 → Except Fault (UdpPiece × Int)} {bad : Int → Int}
  {Inv : UdpPiece → Prop} {ok : Piece → Prop}

/-- A piece that leaves its group incomplete: code `0`, the window grows. -/
theorem TakesPieces.step_open (hc : TakesPieces call bad Inv ok) {h : UdpPiece} {p : Piece}
    {w : List Piece} (hinv : Inv h) (hok : ok p)
    (hopen : OpenGroup h.toRecvGroup p.totalSize p.totalPieces w) (hfit : p.Fits)
    (hlt : w.length + 1 < p.totalPieces) :
    ∃ h', call h p.bytes = .ok (h', 0) ∧ Inv h' ∧
      OpenGroup h'.toRecvGroup p.totalSize p.totalPieces (w ++ [p]) := by
  have hacc := accept_open hopen hfit (by omega)
  rw [if_neg (by omega)] at hacc
  obtain ⟨h', hcall, hg, hinv'⟩ := hc h p _ _ hinv hok hacc
  exact ⟨h', hcall, hinv', hg ▸ openGroup_append hopen.window rfl rfl hfit⟩

/-- A piece that completes the count: the verdict is about the byte total. -/
theorem TakesPieces.step_close (hc : TakesPieces call bad Inv ok) {h : UdpPiece} {p : Piece}
    {w : List Piece} (hinv : Inv h) (hok : ok p)
    (hopen : OpenGroup h.toRecvGroup p.totalSize p.totalPieces w) (hfit : p.Fits)
    (hlt : w.length + 1 = p.totalPieces) :
    ∃ h', call h p.bytes
        = .ok (h', codeAfter bad 0 (some (dataTotal (w ++ [p]) == p.totalSize))) ∧
      Inv h' ∧ h'.toRecvGroup = closedOf p.totalSize (w ++ [p]) := by
  have hacc := accept_open hopen hfit (by omega)
  rw [if_pos hlt] at hacc
  obtain ⟨h', hcall, hg, hinv'⟩ := hc h p _ _ hinv hok hacc
  exact ⟨h', hcall, hinv', hg⟩

/-- One piece per call, up to the one that completes the count. -/
theorem TakesPieces.run_close (hc : TakesPieces call bad Inv ok) {ts tp : Nat}
    {ps : List Piece} (hps : WindowOf ts tp ps) (hok : ∀ p ∈ ps, ok p) :
    ∀ {h : UdpPiece} {w : List Piece}, Inv h → OpenGroup h.toRecvGroup ts tp w →
      w.length < tp → w.length + ps.length = tp →
      ∃ h', runOps call h (ps.map Piece.bytes)
          = .ok (h', List.replicate (ps.length - 1) 0
              ++ [codeAfter bad 0 (some (dataTotal (w ++ ps) == ts))]) ∧
        Inv h' ∧ h'.toRecvGroup = closedOf ts (w ++ ps) := by
  induction ps with
  | nil =>
      intro h w _ _ hlt hlen
      rw [List.length_nil] at hlen
      omega
  | cons p ps ih =>
      intro h w hinv hopen hlt hlen
      obtain ⟨rfl, rfl, hfit⟩ := hps p (List.mem_cons_self ..)
      rw [List.length_cons] at hlen
      cases ps with
      | nil =>
          obtain ⟨h', hcall, hinv', hg⟩ := hc.step_close hinv (hok p (List.mem_cons_self ..))
            hopen hfit (by simpa using hlen)
          exact ⟨h', runOps_cons hcall rfl, hinv', hg⟩
      | cons q ps =>
          rw [List.length_cons] at hlen
          obtain ⟨h₁, hcall, hinv₁, hopen₁⟩ := hc.step_open hinv (hok p (List.mem_cons_self ..))
            hopen hfit (by omega)
          obtain ⟨h', hrun, hinv', hg⟩ := ih (fun r hr => hps r (List.mem_cons_of_mem _ hr))
            (fun r hr => hok r (List.mem_cons_of_mem _ hr)) hinv₁ hopen₁
            (by rw [List.length_append, List.length_singleton]; omega)
            (by rw [List.length_append, List.length_singleton, List.length_cons]; omega)
          rw [List.append_assoc, List.singleton_append] at hrun hg
          refine ⟨h', ?_, hinv', hg⟩
          exact runOps_cons hcall hrun

end Deliveries

end LinuxCodeDemos.Udp

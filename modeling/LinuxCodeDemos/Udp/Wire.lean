/-
  LinuxCodeDemos.Udp.Wire

  Well-formed pieces and their bytes.

  A `Piece` is a header whose four fields fit their 16-bit words, with at least
  one byte of data.  On a stream of such pieces, followed by a tail that is not
  a whole piece, `walk` takes the pieces one after the other and stops at the
  tail (`walk_stream`), and the sync scan skips nothing (`skipSync_stream`).

  The second half ties the sender to this: what `udp_piece_cut` and
  `udp_piece_get` produce for a payload of 1 to 65535 bytes are the bytes of
  `Payload.pieces` (`cutDatagrams_eq`).
-/

import Mathlib.Data.List.FinRange
import Mathlib.Algebra.BigOperators.Group.List.Basic
import LinuxCodeDemos.Lib.While
import LinuxCodeDemos.Udp.Walk

namespace LinuxCodeDemos.Udp

open Lib

-- ============================================================================
-- Header words
-- ============================================================================

/-- A 16-bit word survives the two truncating stores and the read. -/
theorem beWord_ofNat {n : Nat} (h : n < 2 ^ 16) :
    beWord (UInt8.ofNat (n >>> 8)) (UInt8.ofNat (n &&& 0xff)) = n := by
  have hand : n &&& 0xff = n % 2 ^ 8 := Nat.and_two_pow_sub_one_eq_mod n 8
  simp only [beWord, UInt8.toNat_ofNat', Nat.shiftRight_eq_div_pow, Nat.shiftLeft_eq, hand]
  omega

-- ============================================================================
-- Pieces
-- ============================================================================

/-- A well-formed piece.  Bytes 10 and 11 of the header are read by nobody. -/
structure Piece where
  totalSize : Nat
  totalPieces : Nat
  pIndex : Nat
  spare : UInt8 × UInt8
  data : List UInt8
  totalSize_lt : totalSize < 2 ^ 16
  totalPieces_lt : totalPieces < 2 ^ 16
  pIndex_lt : pIndex < 2 ^ 16
  data_lt : data.length < 2 ^ 16
  data_pos : 0 < data.length

namespace Piece

/-- The twelve header bytes. -/
def head (p : Piece) : List UInt8 :=
  [0xAF, 0xAE,
    UInt8.ofNat (p.totalSize >>> 8), UInt8.ofNat (p.totalSize &&& 0xff),
    UInt8.ofNat (p.totalPieces >>> 8), UInt8.ofNat (p.totalPieces &&& 0xff),
    UInt8.ofNat (p.pIndex >>> 8), UInt8.ofNat (p.pIndex &&& 0xff),
    UInt8.ofNat (p.data.length >>> 8), UInt8.ofNat (p.data.length &&& 0xff),
    p.spare.1, p.spare.2]

/-- The piece on the wire. -/
def bytes (p : Piece) : List UInt8 := p.head ++ p.data

@[simp] theorem head_length (p : Piece) : p.head.length = headSize := rfl

@[simp] theorem bytes_length (p : Piece) : p.bytes.length = headSize + p.data.length := by
  simp [bytes]

theorem wordAt_totalSize (p : Piece) (rest : List UInt8) :
    wordAt (p.bytes ++ rest) headPosTotalSize = p.totalSize :=
  beWord_ofNat p.totalSize_lt

theorem wordAt_totalPieces (p : Piece) (rest : List UInt8) :
    wordAt (p.bytes ++ rest) headPosTotalPieces = p.totalPieces :=
  beWord_ofNat p.totalPieces_lt

theorem wordAt_pIndex (p : Piece) (rest : List UInt8) :
    wordAt (p.bytes ++ rest) headPosPIndex = p.pIndex :=
  beWord_ofNat p.pIndex_lt

theorem wordAt_pLength (p : Piece) (rest : List UInt8) :
    wordAt (p.bytes ++ rest) headPosPLength = p.data.length :=
  beWord_ofNat p.data_lt

theorem drop_bytes (p : Piece) (rest : List UInt8) :
    (p.bytes ++ rest).drop (headSize + p.data.length) = rest := by
  rw [← bytes_length, List.drop_left]

theorem data_of_bytes (p : Piece) (rest : List UInt8) :
    ((p.bytes ++ rest).drop headSize).take p.data.length = p.data := by
  rw [bytes, List.append_assoc, ← head_length p, List.drop_left, List.take_left]

/-- What both reassemblers do with this piece. -/
def accept (g : RecvGroup) (p : Piece) : Except Fault Accept :=
  acceptPiece g p.totalSize p.totalPieces p.pIndex p.data

end Piece

/-- The bytes of a list of pieces, one after the other. -/
def stream (ps : List Piece) : List UInt8 := ps.flatMap Piece.bytes

@[simp] theorem stream_nil : stream [] = [] := rfl

@[simp] theorem stream_cons (p : Piece) (ps : List Piece) :
    stream (p :: ps) = p.bytes ++ stream ps := rfl

@[simp] theorem stream_append (ps qs : List Piece) :
    stream (ps ++ qs) = stream ps ++ stream qs := List.flatMap_append

/-- Pieces handled in order; a failed `malloc` leaves the current one. -/
def acceptAll (bad : Int → Int) : RecvGroup → List Piece → Int →
    Except Fault (RecvGroup × List Piece × Int)
  | g, [], code => .ok (g, [], code)
  | g, p :: ps, code =>
      match p.accept g with
      | .error f => .error f
      | .ok (.noMemory g) => .ok (g, p :: ps, -1)
      | .ok (.taken g verdict) => acceptAll bad g ps (codeAfter bad code verdict)

/-- The bytes that wait for the rest of the first of `ps`. -/
def Pending (tail : List UInt8) : List Piece → Prop
  | [] => tail = []
  | p :: _ => tail <+: p.bytes ∧ tail.length < p.bytes.length

theorem pending_nil {ps : List Piece} : Pending [] ps := by
  cases ps with
  | nil => rfl
  | cons p ps =>
      refine ⟨List.nil_prefix, ?_⟩
      rw [Piece.bytes_length]
      exact Nat.add_pos_left (by decide) _

theorem Pending.length_lt {tail : List UInt8} {p : Piece} {ps : List Piece}
    (h : Pending tail (p :: ps)) : tail.length < headSize + p.data.length :=
  p.bytes_length ▸ h.2

theorem wordAt_of_isPrefix {tail bs : List UInt8} {i : Nat} (h : tail <+: bs)
    (hi : i + 1 < tail.length) : wordAt tail i = wordAt bs i := by
  have hle := h.length_le
  rw [wordAt_of_lt hi, wordAt_of_lt (by omega), h.getElem, h.getElem]

/-- The piece loop stops in front of these bytes: they are not more than a header, or fewer
    than the header at their start announces. -/
def Stops (bs : List UInt8) : Prop :=
  bs.length ≤ headSize ∨ bs.length < headSize + wordAt bs headPosPLength

instance (bs : List UInt8) : Decidable (Stops bs) := inferInstanceAs (Decidable (_ ∨ _))

theorem walk_of_stops {bad : Int → Int} {g : RecvGroup} {bs : List UInt8} {code : Int}
    (h : Stops bs) : walk bad g bs code = .ok (g, bs, code) := by
  rcases h with hshort | hpartial
  · exact walk_of_short hshort
  · exact walk_of_partial hpartial

/-- The loop stops at the pending bytes. -/
theorem Pending.stops {tail : List UInt8} {ps : List Piece} (h : Pending tail ps) : Stops tail := by
  cases ps with
  | nil =>
      rw [show tail = [] from h]
      exact .inl (Nat.zero_le _)
  | cons p ps =>
      by_cases hlen : tail.length ≤ headSize
      · exact .inl hlen
      · -- the header is complete, so its length field is the piece's
        have hword : wordAt tail headPosPLength = p.data.length := by
          have hp := p.wordAt_pLength []
          rw [List.append_nil] at hp
          rw [wordAt_of_isPrefix h.1 (by simp only [headSize, headPosPLength] at *; omega), hp]
        refine .inr ?_
        rw [hword]
        exact h.length_lt

/-- `walk` takes the pieces of a stream and stops where the loop stops. -/
theorem walk_stream (bad : Int → Int) {tail : List UInt8} (htail : Stops tail) (g : RecvGroup)
    (ps : List Piece) (code : Int) :
    walk bad g (stream ps ++ tail) code =
      (acceptAll bad g ps code).map (fun x => (x.1, stream x.2.1 ++ tail, x.2.2)) := by
  induction ps generalizing g code with
  | nil => exact walk_of_stops htail
  | cons p ps ih =>
      rw [stream_cons, List.append_assoc, walk_of_whole, acceptAll, p.wordAt_totalSize,
        p.wordAt_totalPieces, p.wordAt_pIndex, p.wordAt_pLength, p.data_of_bytes, p.drop_bytes]
      · rw [Piece.accept]
        cases acceptPiece g p.totalSize p.totalPieces p.pIndex p.data with
        | error f => rfl
        | ok out =>
            cases out with
            | noMemory g' => simp [Except.map]
            | taken g' verdict => exact ih g' _
      · have := p.data_pos
        simp only [List.length_append, Piece.bytes_length]
        omega
      · rw [p.wordAt_pLength, List.length_append, Piece.bytes_length]
        omega

/-- A stream starts with a sync word, and so does a pending piece as far as it
    goes: nothing is skipped. -/
theorem skipSync_stream {tail : List UInt8} {later : List Piece} (htail : Pending tail later)
    (ps : List Piece) : skipSync (stream ps ++ tail) = stream ps ++ tail := by
  have hbytes : ∀ (p : Piece) (rest : List UInt8),
      skipSync (p.bytes ++ rest) = p.bytes ++ rest := by
    intro p rest
    rw [show p.bytes ++ rest = 0xAF :: 0xAE :: (p.bytes ++ rest).drop 2 from rfl, skipSync,
      if_pos ⟨rfl, rfl⟩]
  cases ps with
  | cons p ps => rw [stream_cons, List.append_assoc, hbytes]
  | nil =>
      cases later with
      | nil =>
          rw [show tail = [] from htail]
          rfl
      | cons p later =>
          have hpre := htail.1
          rcases tail with _ | ⟨a, _ | ⟨b, rest⟩⟩
          · rfl
          · rfl
          · simp only [Piece.bytes, Piece.head, List.cons_append, List.cons_prefix_cons] at hpre
            rw [stream_nil, List.nil_append, skipSync, if_pos ⟨hpre.1, hpre.2.1⟩]

-- ============================================================================
-- The pieces of a payload
-- ============================================================================

/-- A payload the 16-bit header fields can describe. -/
structure Payload where
  bytes : List UInt8
  pos : 0 < bytes.length
  le : bytes.length ≤ 65535

/-- A payload of two full pieces. -/
def twoPieces (b : UInt8) : Payload where
  bytes := List.replicate 1024 b
  pos := by rw [List.length_replicate]; decide
  le := by rw [List.length_replicate]; decide

theorem twoPieces_length (b : UInt8) : (twoPieces b).bytes.length = 1024 := List.length_replicate

/-- The number of pieces `udp_piece_cut` computes. -/
def pieceCount (n : Nat) : Nat :=
  if n % pieceFixSize > 0 then n / pieceFixSize + 1 else n / pieceFixSize

/-- The data length of piece `i` of `n` bytes. -/
def pieceLen (n i : Nat) : Nat := min pieceFixSize (n - pieceFixSize * i)

theorem pieceCount_pos {n : Nat} (h : 0 < n) : 0 < pieceCount n := by
  unfold pieceCount pieceFixSize
  split <;> omega

theorem pieceCount_le {n : Nat} (h : n ≤ 65535) : pieceCount n ≤ 128 := by
  unfold pieceCount pieceFixSize
  split <;> omega

theorem lt_of_lt_pieceCount {n i : Nat} (h : i < pieceCount n) : pieceFixSize * i < n := by
  unfold pieceCount pieceFixSize at *
  split at h <;> omega

theorem div_lt_pieceCount {n j : Nat} (h : j < n) : j / pieceFixSize < pieceCount n := by
  unfold pieceCount pieceFixSize at *
  split <;> omega

namespace Payload

variable (P : Payload)

/-- The number of its pieces. -/
def count : Nat := pieceCount P.bytes.length

/-- The data of piece `i`. -/
def chunk (i : Nat) : List UInt8 := (P.bytes.drop (pieceFixSize * i)).take pieceFixSize

@[simp] theorem chunk_length (i : Nat) : (P.chunk i).length = pieceLen P.bytes.length i := by
  simp [chunk, pieceLen]

theorem count_pos : 0 < P.count := pieceCount_pos P.pos

theorem count_le : P.count ≤ 128 := pieceCount_le P.le

theorem pieceLen_pos {i : Nat} (h : i < P.count) : 0 < pieceLen P.bytes.length i := by
  have := lt_of_lt_pieceCount h
  simp only [pieceLen, pieceFixSize] at *
  omega

/-- Piece `i` of the payload. -/
def piece (i : Fin P.count) : Piece where
  totalSize := P.bytes.length
  totalPieces := P.count
  pIndex := i
  spare := (0, 0)
  data := P.chunk i
  totalSize_lt := Nat.lt_succ_of_le P.le
  totalPieces_lt := Nat.lt_of_le_of_lt P.count_le (by omega)
  pIndex_lt := Nat.lt_of_lt_of_le i.isLt (Nat.le_trans P.count_le (by omega))
  data_lt := by
    rw [chunk_length]
    exact Nat.lt_of_le_of_lt (Nat.min_le_left ..) (by decide)
  data_pos := by
    rw [chunk_length]
    exact P.pieceLen_pos i.isLt

/-- All pieces, in index order. -/
def pieces : List Piece := (List.finRange P.count).map P.piece

@[simp] theorem pieces_length : P.pieces.length = P.count := by simp [pieces]

theorem piece_bytes_le (i : Fin P.count) : (P.piece i).bytes.length ≤ 524 := by
  have hdata : (P.piece i).data.length = pieceLen P.bytes.length i := P.chunk_length i
  rw [Piece.bytes_length, hdata]
  simp only [headSize, pieceLen, pieceFixSize]
  omega

end Payload

/-- The header written by `udp_piece_get` is that of the payload's piece. -/
theorem Payload.piece_bytes (P : Payload) (i : Fin P.count) :
    (P.piece i).bytes =
      pieceHead P.bytes.length P.count i (pieceLen P.bytes.length i) ++ P.chunk i := by
  rw [← P.chunk_length i]
  rfl

/-- `piece_size` of `udp_piece_get` on a handle that has cut the payload. -/
theorem pieceLen_eq {n i : Nat} (hi : i < pieceCount n) :
    (if pieceCount n = i + 1 ∧ n % pieceFixSize > 0 then n % pieceFixSize else pieceFixSize)
      = pieceLen n i := by
  unfold pieceCount pieceLen pieceFixSize at *
  split_ifs at * <;> omega

/-- One `udp_piece_get` on a handle that has cut the first `n` bytes of `buf`. -/
theorem udpPieceGet_cut (h : UdpPiece) {buf : List UInt8} {n i : Nat} (hn : n ≤ buf.length)
    (hi : i < pieceCount n) :
    ∃ h', udpPieceGet (udpPieceCut h buf n).1 i = .ok (h', pieceLen n i + headSize) ∧
      h'.pieceBuf.take (pieceLen n i + headSize) =
        pieceHead n (pieceCount n) i (pieceLen n i)
          ++ (buf.drop (pieceFixSize * i)).take (pieceLen n i) := by
  have hpos : pieceFixSize * i < n := lt_of_lt_pieceCount hi
  have hle : pieceLen n i ≤ pieceFixSize := Nat.min_le_left ..
  have hlen := pieceLen_eq hi
  have hcut : (udpPieceCut h buf n).1 =
      { h with
        sendPtr := some buf, totalSize := n
        left := n % pieceFixSize, totalPieces := pieceCount n } := by
    rw [udpPieceCut, if_neg (by omega)]
    rfl
  have hload : loadBytes buf (pieceFixSize * i) (pieceLen n i)
      = .ok ((buf.drop (pieceFixSize * i)).take (pieceLen n i)) :=
    loadBytes_of_le (by simp only [pieceLen]; omega)
  have hclen : ((buf.drop (pieceFixSize * i)).take (pieceLen n i)).length = pieceLen n i := by
    rw [List.length_take, List.length_drop]
    simp only [pieceLen]
    omega
  generalize (buf.drop (pieceFixSize * i)).take (pieceLen n i) = chunk at hload hclen ⊢
  generalize hpl : pieceLen n i = len at hle hlen hload hclen ⊢
  -- the head fills the first twelve bytes of the zeroed buffer
  have hhead : headPosSyncWord + (pieceHead n (pieceCount n) i len).length
      ≤ (List.replicate (pieceFixSize + headSize + 1) (0 : UInt8)).length := by
    rw [List.length_replicate]
    exact (by decide : 0 + 12 ≤ pieceFixSize + headSize + 1)
  have hheaded := splice_length hhead
  rw [List.length_replicate] at hheaded
  -- the data fills the bytes after it
  have hdata : headSize + chunk.length
      ≤ (splice (List.replicate (pieceFixSize + headSize + 1) (0 : UInt8)) headPosSyncWord
          (pieceHead n (pieceCount n) i len)).length := by
    rw [hheaded]
    omega
  rw [hcut]
  simp only [udpPieceGet, hlen, Option.getD_some, hload, bind, Except.bind,
    store_of_le hhead, store_of_le hdata]
  refine ⟨_, rfl, ?_⟩
  show List.take _ (splice _ _ _) = _
  unfold splice
  rw [show headPosSyncWord = 0 from rfl, List.take_zero, List.nil_append, Nat.zero_add]
  rw [show headSize = (pieceHead n (pieceCount n) i len).length from rfl, List.take_left,
    ← List.append_assoc, List.take_append_of_le_length (by rw [List.length_append]; omega),
    List.take_of_length_le (by rw [List.length_append]; omega)]

/-- One `udp_piece_get` on a handle that has cut the payload. -/
theorem pieceDatagram_eq (h : UdpPiece) (P : Payload) {i : Nat} (hi : i < P.count) :
    pieceDatagram (udpPieceCut h P.bytes P.bytes.length).1 i =
      .ok (pieceHead P.bytes.length P.count i (pieceLen P.bytes.length i) ++ P.chunk i) := by
  obtain ⟨h', hget, htake⟩ := udpPieceGet_cut h (Nat.le_refl P.bytes.length) hi
  have hchunk : (P.bytes.drop (pieceFixSize * i)).take (pieceLen P.bytes.length i) = P.chunk i := by
    rw [Payload.chunk, pieceLen, ← List.take_take, ← List.length_drop, List.take_length]
  rw [pieceDatagram, hget]
  show Except.ok (h'.pieceBuf.take _) = _
  rw [htake, hchunk]
  rfl

/-- The sender produces the bytes of the payload's pieces, in index order. -/
theorem cutDatagrams_eq (h : UdpPiece) (P : Payload) :
    cutDatagrams h P.bytes = .ok (P.pieces.map Piece.bytes) := by
  have hcount : (udpPieceCut h P.bytes P.bytes.length).2 = P.count := by
    rw [udpPieceCut, if_neg (by omega)]
    rfl
  have hall := mapM_eq_map (List.finRange P.count)
    (f := fun i : Fin P.count => pieceDatagram (udpPieceCut h P.bytes P.bytes.length).1 i)
    (g := fun i => (P.piece i).bytes)
    (fun i _ => (pieceDatagram_eq h P i.isLt).trans (congrArg _ (P.piece_bytes i).symm))
  simp only [cutDatagrams, hcount]
  rw [Payload.pieces, List.map_map, ← List.map_coe_finRange_eq_range, List.mapM_map]
  exact hall

end LinuxCodeDemos.Udp

/-
  LinuxCodeDemos.Udp.Headers

  What a receiver reads in the headers that `udp_piece_get` writes, for every size
  that `udp_piece_cut` accepts.

  The pieces always add up to the payload (`sum_pieceLen_all`).  The 16-bit words of the
  header hold a number modulo 2^16 (`beWord_mod`), so the headers say what was cut
  exactly for payloads of at most 65535 bytes (`headers_faithful_iff`).
-/

import LinuxCodeDemos.Udp.Group

namespace LinuxCodeDemos.Udp

open Lib

/-- The two truncating stores of a word and the read of it. -/
theorem beWord_mod (n : Nat) :
    beWord (UInt8.ofNat (n >>> 8)) (UInt8.ofNat (n &&& 0xff)) = n % 2 ^ 16 := by
  have hand : n &&& 0xff = n % 2 ^ 8 := Nat.and_two_pow_sub_one_eq_mod n 8
  simp only [beWord, UInt8.toNat_ofNat', Nat.shiftRight_eq_div_pow, Nat.shiftLeft_eq, hand]
  omega

/-- The words of a header, as `udp_piece_merge` reads them. -/
structure HeaderWords where
  totalSize : Nat
  totalPieces : Nat
  pIndex : Nat
  dataLen : Nat
  deriving DecidableEq, Repr

/-- The header reads of `udp_piece_merge` at the start of a datagram. -/
def readHeader (buf : List UInt8) : Except Fault HeaderWords := do
  let dataLen ← loadWord buf headPosPLength
  let pIndex ← loadWord buf headPosPIndex
  let totalSize ← loadWord buf headPosTotalSize
  let totalPieces ← loadWord buf headPosTotalPieces
  .ok { totalSize, totalPieces, pIndex, dataLen }

theorem readHeader_pieceHead (n count i len : Nat) (rest : List UInt8) :
    readHeader (pieceHead n count i len ++ rest) =
      .ok { totalSize := n % 2 ^ 16, totalPieces := count % 2 ^ 16, pIndex := i % 2 ^ 16
            dataLen := len % 2 ^ 16 } := by
  rw [← beWord_mod n, ← beWord_mod count, ← beWord_mod i, ← beWord_mod len]
  rfl

/-- The pieces are the whole payload. -/
theorem sum_pieceLen_all (n : Nat) : ((List.range (pieceCount n)).map (pieceLen n)).sum = n := by
  rw [sum_pieceLen, Nat.min_eq_left (le_mul_pieceCount n)]

/-- After `udp_piece_cut`, the header of every piece says the size, the number of pieces, the
    index and the length of the piece's data, and these lengths add up to the size. -/
def HeadersFaithful (h : UdpPiece) (buf : List UInt8) (size : Int) : Prop :=
  ∃ len : Nat → Nat,
    (∀ i < (udpPieceCut h buf size).2,
      ∃ h', udpPieceGet (udpPieceCut h buf size).1 i = .ok (h', len i + headSize) ∧
        readHeader (h'.pieceBuf.take (len i + headSize)) =
          .ok { totalSize := size.toNat, totalPieces := (udpPieceCut h buf size).2, pIndex := i
                dataLen := len i }) ∧
    (((List.range (udpPieceCut h buf size).2).map len).sum : Int) = size

theorem udpPieceCut_count (h : UdpPiece) (buf : List UInt8) (n : Nat) :
    (udpPieceCut h buf n).2 = pieceCount n := by
  rw [udpPieceCut, if_neg (by omega)]
  rfl

/-- The first header alone shows it if the size does not fit. -/
theorem HeadersFaithful.le {h : UdpPiece} {buf : List UInt8} {n : Nat}
    (hfaithful : HeadersFaithful h buf n) (hpos : 0 < n) (hbuf : n ≤ buf.length) : n ≤ 65535 := by
  obtain ⟨len, hheaders, _⟩ := hfaithful
  rw [udpPieceCut_count] at hheaders
  obtain ⟨h₁, hget₁, hread⟩ := hheaders 0 (pieceCount_pos hpos)
  obtain ⟨h₂, hget₂, htake⟩ := udpPieceGet_cut h hbuf (pieceCount_pos hpos)
  rw [hget₁] at hget₂
  obtain ⟨rfl, hlen⟩ := Prod.mk.inj (Except.ok.inj hget₂)
  rw [hlen, htake, readHeader_pieceHead] at hread
  have hsize : n % 2 ^ 16 = n := congrArg HeaderWords.totalSize (Except.ok.inj hread)
  omega

/-- The headers of a payload say what was cut exactly if it has at most 65535 bytes. -/
theorem headers_faithful_iff (h : UdpPiece) (buf : List UInt8) {size : Int} (hpos : 0 < size)
    (hbuf : size ≤ buf.length) :
    0 < (udpPieceCut h buf size).2 ∧ (HeadersFaithful h buf size ↔ size ≤ 65535) := by
  obtain ⟨n, rfl⟩ := Int.eq_ofNat_of_zero_le (Int.le_of_lt hpos)
  have hn : 0 < n := by omega
  have hle : n ≤ buf.length := by omega
  have hcount := udpPieceCut_count h buf n
  refine ⟨by rw [hcount]; exact pieceCount_pos hn, ?_⟩
  refine ⟨?_, ?_⟩
  · intro hfaithful
    have hsmall := hfaithful.le hn hle
    omega
  · intro hsmall
    have hpieces := pieceCount_le (show n ≤ 65535 by omega)
    rw [HeadersFaithful, hcount]
    refine ⟨pieceLen n, ?_, congrArg Nat.cast (sum_pieceLen_all n)⟩
    intro i hi
    obtain ⟨h', hget, htake⟩ := udpPieceGet_cut h hle hi
    have hlen : pieceLen n i ≤ pieceFixSize := Nat.min_le_left ..
    rw [pieceFixSize] at hlen
    refine ⟨h', hget, ?_⟩
    rw [htake, readHeader_pieceHead, Nat.mod_eq_of_lt (by omega), Nat.mod_eq_of_lt (by omega),
      Nat.mod_eq_of_lt (by omega), Nat.mod_eq_of_lt (by omega)]
    rfl

/-- The headers of three bytes. -/
theorem headers_faithful_three : HeadersFaithful (zeroedHandle 0) [1, 2, 3] 3 :=
  (headers_faithful_iff (zeroedHandle 0) [1, 2, 3] (by decide) (by decide)).2.mpr
    (by decide)

/-- 65536 bytes do not fit the 16-bit size. -/
theorem headers_unfaithful_65536 :
    ¬ HeadersFaithful (zeroedHandle 0) (List.replicate 65536 0) (65536 : Nat) := by
  intro hfaithful
  have hle := hfaithful.le (by omega) (by rw [List.length_replicate])
  omega

end LinuxCodeDemos.Udp

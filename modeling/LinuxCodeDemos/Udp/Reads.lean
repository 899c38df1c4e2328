/-
  LinuxCodeDemos.Udp.Reads

  What `udp_piece_merge` of `socket/udp/udp-piece/udp-piece.c` reads of its
  datagram.

  - The functions below repeat the sync scan and the piece loop with the offsets
    they look at and the pairs `piece_buf`, `temp_size` they go through; they
    compute what the reassembler computes (`udpPieceMergeTraced_result`).
  - The piece loop stays inside the datagram, for every length field
    (`mergePiecesTraced_inside`).
  - The scan looks at two bytes without asking whether there are two left, so it
    leaves the datagram exactly when the last byte is `0xAF` and no sync word
    came before it (`findSyncTraced_inside_iff`).  `udp_piece_merge_ex` asks
    first.
-/

import LinuxCodeDemos.Lib.Traced
import LinuxCodeDemos.Udp.Bounds

namespace LinuxCodeDemos.Udp

open Lib

-- ============================================================================
-- Reads
-- ============================================================================

/-- What the reassembler does with its datagram, offsets counted from `buf`. -/
inductive ReadEvent where
  /-- The byte at an offset is compared, or is half of a header field. -/
  | examine (off : Nat)
  /-- `memcpy` out of the datagram. -/
  | copy (off len : Nat)
  /-- `piece_buf` and `temp_size` have new values. -/
  | remaining (pieceBuf : Nat) (tempSize : Int)
  deriving DecidableEq, Repr

/-- The bytes lie in the first `size`, and `tempSize` counts those from
    `pieceBuf` on or is 0. -/
def ReadEvent.Inside (size : Nat) : ReadEvent → Prop
  | .examine off => off < size
  | .copy off len => len = 0 ∨ off + len ≤ size
  | .remaining pieceBuf tempSize => pieceBuf + tempSize = size ∨ tempSize = 0

/-- One byte of the datagram. -/
def loadTraced (buf : List UInt8) (off : Nat) : Traced ReadEvent UInt8 := do
  Traced.emit (.examine off)
  Traced.lift (load buf off)

/-- `(buf[off] << 8) + buf[off + 1]`. -/
def loadWordTraced (buf : List UInt8) (off : Nat) : Traced ReadEvent Nat := do
  let hi ← loadTraced buf off
  let lo ← loadTraced buf (off + 1)
  pure (beWord hi lo)

/-- The sync scan of `udp_piece_merge`. -/
def findSyncTraced (buf : List UInt8) : Nat → Nat → Nat → Traced ReadEvent (Nat × Nat)
  | 0, pieceBuf, tempSize => pure (pieceBuf, tempSize)
  | i + 1, pieceBuf, tempSize => do
      let b0 ← loadTraced buf pieceBuf
      if b0 = 0xAF then do
        let b1 ← loadTraced buf (pieceBuf + 1)
        if b1 = 0xAE then pure (pieceBuf, tempSize)
        else do
          Traced.emit (.remaining (pieceBuf + 1) ((tempSize : Int) - 1))
          findSyncTraced buf i (pieceBuf + 1) (tempSize - 1)
      else do
        Traced.emit (.remaining (pieceBuf + 1) ((tempSize : Int) - 1))
        findSyncTraced buf i (pieceBuf + 1) (tempSize - 1)

/-- What the `memcpy` of a piece makes of the handle: `copyPiece`, or anything
    else after a copy that leaves `recv_buf`. -/
abbrev CopyEffect := RecvGroup → Nat → List UInt8 → Except Fault RecvGroup

/-- The piece loop of `udp_piece_merge`.  A piece that opens a group has its
    totals read twice, at the same offsets. -/
def mergePiecesTraced (copyEffect : CopyEffect) (buf : List UInt8) :
    Nat → RecvGroup → Nat → Nat → Int → Traced ReadEvent (RecvGroup × Int)
  | 0, g, _, _, getAllPieces => pure (g, getAllPieces)
  | fuel + 1, g, pieceBuf, tempSize, getAllPieces =>
      if tempSize > headSize then do
        let dataLen ← loadWordTraced buf (pieceBuf + headPosPLength)
        if tempSize ≥ headSize + dataLen then do
          let pIndex ← loadWordTraced buf (pieceBuf + headPosPIndex)
          let tempTotalSize ← loadWordTraced buf (pieceBuf + headPosTotalSize)
          let tempTotalPieces ← loadWordTraced buf (pieceBuf + headPosTotalPieces)
          match enterGroup g tempTotalSize tempTotalPieces with
          | .error g => pure (g, -1)
          | .ok g => do
              Traced.emit (.remaining (pieceBuf + headSize) ((tempSize : Int) - headSize))
              Traced.emit (.copy (pieceBuf + headSize) dataLen)
              let data ← Traced.lift (loadBytes buf (pieceBuf + headSize) dataLen)
              let g ← Traced.lift (copyEffect g pIndex data)
              Traced.emit (.remaining (pieceBuf + headSize + dataLen)
                ((tempSize : Int) - headSize - dataLen))
              let (g, verdict) := finishPiece g dataLen
              mergePiecesTraced copyEffect buf fuel g (pieceBuf + headSize + dataLen)
                (tempSize - headSize - dataLen)
                (match verdict with
                  | none => getAllPieces
                  | some true => 1
                  | some false => -1)
        else do
          Traced.emit (.remaining pieceBuf 0)
          pure (g, getAllPieces)
      else pure (g, getAllPieces)

/-- `udp_piece_merge`. -/
def udpPieceMergeTraced (copyEffect : CopyEffect) (h : UdpPiece) (buf : List UInt8) (size : Nat) :
    Traced ReadEvent (UdpPiece × Int) := do
  Traced.emit (.remaining 0 size)
  let (pieceBuf, tempSize) ← findSyncTraced buf size 0 size
  let (g, code) ← mergePiecesTraced copyEffect buf tempSize h.toRecvGroup pieceBuf tempSize 0
  pure ({ h with toRecvGroup := g }, code)

-- ============================================================================
-- The traced functions compute what the reassembler computes
-- ============================================================================

@[simp] theorem loadTraced_result (buf : List UInt8) (off : Nat) :
    (loadTraced buf off).result = load buf off := rfl

@[simp] theorem loadWordTraced_result (buf : List UInt8) (off : Nat) :
    (loadWordTraced buf off).result = loadWord buf off := by
  simp only [loadWordTraced, loadWord, Traced.result_bind, loadTraced_result]
  rfl

theorem findSyncTraced_result (buf : List UInt8) (i pieceBuf tempSize : Nat) :
    (findSyncTraced buf i pieceBuf tempSize).result = findSync buf i pieceBuf tempSize := by
  induction i generalizing pieceBuf tempSize with
  | zero => rfl
  | succ i ih =>
      have hnext := ih (pieceBuf + 1) (tempSize - 1)
      simp only [findSyncTraced, findSync, Traced.result_bind, loadTraced_result]
      refine bind_congr fun b0 => ?_
      split
      · simp only [Traced.result_bind, loadTraced_result]
        refine bind_congr fun b1 => ?_
        split
        · rfl
        · simp only [Traced.result_bind, Traced.result_emit, Traced.ok_bind, hnext]
      · simp only [Traced.result_bind, Traced.result_emit, Traced.ok_bind, hnext]

theorem mergePiecesTraced_result (buf : List UInt8) (fuel : Nat) (g : RecvGroup)
    (pieceBuf tempSize : Nat) (code : Int) :
    (mergePiecesTraced copyPiece buf fuel g pieceBuf tempSize code).result
      = mergePieces buf fuel g pieceBuf tempSize code := by
  induction fuel generalizing g pieceBuf tempSize code with
  | zero => rfl
  | succ fuel ih =>
      rw [mergePiecesTraced, mergePieces]
      split
      · simp only [Traced.result_bind, loadWordTraced_result]
        refine bind_congr fun dataLen => ?_
        split
        · simp only [Traced.result_bind, loadWordTraced_result]
          refine bind_congr fun pIndex => ?_
          refine bind_congr fun tempTotalSize => ?_
          refine bind_congr fun tempTotalPieces => ?_
          cases enterGroup g tempTotalSize tempTotalPieces with
          | error g' => rfl
          | ok g' =>
              simp only [Traced.result_bind, Traced.result_emit, Traced.result_lift,
                Traced.ok_bind]
              refine bind_congr fun data => ?_
              refine bind_congr fun g'' => ?_
              exact ih _ _ _ _
        · rfl
      · rfl

/-- The traced reassembler is `udp_piece_merge`. -/
theorem udpPieceMergeTraced_result (h : UdpPiece) (buf : List UInt8) (size : Nat) :
    (udpPieceMergeTraced copyPiece h buf size).result = udpPieceMerge h buf size := by
  simp only [udpPieceMergeTraced, udpPieceMerge, Traced.result_bind, Traced.result_emit,
    Traced.ok_bind, findSyncTraced_result, mergePiecesTraced_result]
  rfl

-- ============================================================================
-- The piece loop stays inside
-- ============================================================================

section Inside

variable {size : Nat} {buf : List UInt8}

theorem loadTraced_all {α : Type} (off : Nat) (f : UInt8 → Traced ReadEvent α) :
    (loadTraced buf off >>= f).All (ReadEvent.Inside size) ↔
      off < size ∧ ∀ b, load buf off = .ok b → (f b).All (ReadEvent.Inside size) := by
  rw [Traced.all_bind, loadTraced_result, loadTraced, Traced.all_emit_bind, Traced.all_lift,
    and_true]
  exact Iff.rfl

/-- A header field inside the datagram, and what follows it. -/
theorem loadWordTraced_all {α : Type} {off : Nat} {f : Nat → Traced ReadEvent α}
    (hoff : off + 1 < size) (hrest : ∀ w, (f w).All (ReadEvent.Inside size)) :
    (loadWordTraced buf off >>= f).All (ReadEvent.Inside size) := by
  rw [Traced.all_bind]
  refine ⟨?_, fun w _ => hrest w⟩
  rw [loadWordTraced, loadTraced_all]
  refine ⟨by omega, fun hi _ => ?_⟩
  rw [loadTraced_all]
  exact ⟨hoff, fun lo _ => (Traced.all_pure _).mpr trivial⟩

/-- The piece loop, started with the bytes from `pieceBuf` to the end. -/
theorem mergePiecesTraced_inside (copyEffect : CopyEffect) (fuel : Nat) (g : RecvGroup)
    (pieceBuf tempSize : Nat) (code : Int) (hpos : pieceBuf + tempSize = size) :
    (mergePiecesTraced copyEffect buf fuel g pieceBuf tempSize code).All
      (ReadEvent.Inside size) := by
  induction fuel generalizing g pieceBuf tempSize code with
  | zero => exact (Traced.all_pure _).mpr trivial
  | succ fuel ih =>
      rw [mergePiecesTraced]
      split
      · next hhead =>
          -- the header fields, for whatever values they have
          have hfield : ∀ i, i + 1 < headSize → pieceBuf + i + 1 < size :=
            fun i hi => by omega
          refine loadWordTraced_all (hfield headPosPLength (by decide)) fun dataLen => ?_
          split
          · next hwhole =>
              refine loadWordTraced_all (hfield headPosPIndex (by decide)) fun pIndex => ?_
              refine loadWordTraced_all (hfield headPosTotalSize (by decide)) fun ts => ?_
              refine loadWordTraced_all (hfield headPosTotalPieces (by decide)) fun tp => ?_
              cases enterGroup g ts tp with
              | error g' => exact (Traced.all_pure _).mpr trivial
              | ok g' =>
                  have hdata : pieceBuf + headSize + dataLen ≤ size := by omega
                  simp only [Traced.all_emit_bind]
                  refine ⟨.inl (by push_cast; omega), .inr hdata, ?_⟩
                  rw [Traced.all_bind]
                  refine ⟨(Traced.all_lift _).mpr trivial, fun data _ => ?_⟩
                  rw [Traced.all_bind]
                  refine ⟨(Traced.all_lift _).mpr trivial, fun g'' _ => ?_⟩
                  rw [Traced.all_emit_bind]
                  exact ⟨.inl (by push_cast; omega), ih _ _ _ _ (by omega)⟩
          · rw [Traced.all_emit_bind]
            exact ⟨.inr rfl, (Traced.all_pure _).mpr trivial⟩
      · exact (Traced.all_pure _).mpr trivial

end Inside

-- ============================================================================
-- The sync scan
-- ============================================================================

/-- The sync word. -/
def syncWord : List UInt8 := [0xAF, 0xAE]

/-- The scan meets a sync word, or does not end on the first half of one. -/
def ScanStops (datagram : List UInt8) : Prop :=
  datagram.getLast? = some 0xAF → syncWord <:+: datagram

instance (datagram : List UInt8) : Decidable (ScanStops datagram) :=
  inferInstanceAs (Decidable (_ → _))

theorem scanStops_of_sync (rest : List UInt8) : ScanStops (0xAF :: 0xAE :: rest) :=
  fun _ => ⟨[], rest, rfl⟩

theorem not_scanStops_half : ¬ ScanStops [0xAF] := by decide

theorem not_sync_of_first {b : UInt8} {rest : List UInt8} (hb : b ≠ 0xAF) :
    ¬ syncWord <+: b :: rest := by
  intro hp
  rw [syncWord, List.cons_prefix_cons] at hp
  exact hb hp.1.symm

theorem not_sync_of_second {a c : UInt8} {rest : List UInt8} (hc : c ≠ 0xAE) :
    ¬ syncWord <+: a :: c :: rest := by
  intro hp
  rw [syncWord, List.cons_prefix_cons, List.cons_prefix_cons] at hp
  exact hc hp.2.1.symm

/-- A byte that starts no sync word can be dropped. -/
theorem scanStops_cons {b : UInt8} {rest : List UInt8} (hlast : rest = [] → b ≠ 0xAF)
    (hsync : ¬ syncWord <+: b :: rest) : ScanStops (b :: rest) ↔ ScanStops rest := by
  rw [ScanStops, ScanStops, List.infix_cons_iff, or_iff_right hsync]
  cases rest with
  | nil =>
      have hb : b ≠ 0xAF := hlast rfl
      simp [hb]
  | cons c rest => rw [List.getLast?_cons_cons]

/-- The byte after those already passed. -/
theorem load_after (passed rest : List UInt8) (b : UInt8) :
    load (passed ++ b :: rest) passed.length = .ok b := by
  have hload := @load_of_drop _ (passed ++ b :: rest) rest passed 0 b rfl
  rwa [Nat.zero_add] at hload

/-- The scan from the byte behind `passed`: it stays inside the datagram exactly
    when it stops on what is left of it. -/
theorem findSyncTraced_inside_iff (after : List UInt8) (rest passed : List UInt8) :
    (findSyncTraced (passed ++ (rest ++ after)) rest.length passed.length rest.length).All
        (ReadEvent.Inside (passed.length + rest.length)) ↔ ScanStops rest := by
  induction rest generalizing passed with
  | nil => exact iff_of_true ((Traced.all_pure _).mpr trivial) fun h => nomatch h
  | cons b rest ih =>
      -- the scan one byte further on
      have hnext := ih (passed ++ [b])
      rw [List.append_assoc, List.singleton_append, List.length_append, List.length_singleton,
        Nat.add_assoc, Nat.add_comm 1] at hnext
      have hload : load (passed ++ (b :: rest ++ after)) passed.length = .ok b :=
        load_after passed (rest ++ after) b
      have hlt : passed.length < passed.length + (rest.length + 1) := by omega
      have hstep : ReadEvent.Inside (passed.length + (rest.length + 1))
          (.remaining (passed.length + 1) (((rest.length + 1 : Nat) : Int) - 1)) :=
        .inl (by push_cast; omega)
      rw [List.length_cons, findSyncTraced, loadTraced_all, hload, Traced.forall_ok_iff,
        and_iff_right hlt]
      split
      · next hb =>
          subst hb
          rw [loadTraced_all]
          cases rest with
          | nil =>
              -- the last byte of the datagram is the first half of a sync word
              exact iff_of_false (fun h => Nat.lt_irrefl _ h.1) not_scanStops_half
          | cons c rest =>
              have hload' : load (passed ++ (0xAF :: c :: rest ++ after)) (passed.length + 1)
                  = .ok c := by
                have hc := load_after (passed ++ [0xAF]) (rest ++ after) c
                rwa [List.append_assoc, List.length_append] at hc
              have hlt' : passed.length + 1 < passed.length + ((c :: rest).length + 1) := by
                rw [List.length_cons]
                omega
              rw [hload', Traced.forall_ok_iff, and_iff_right hlt']
              split
              · next hc =>
                  subst hc
                  exact iff_of_true ((Traced.all_pure _).mpr trivial) (scanStops_of_sync rest)
              · next hc =>
                  rw [Traced.all_emit_bind, and_iff_right hstep,
                    scanStops_cons (fun h => absurd h (List.cons_ne_nil c rest))
                      (not_sync_of_second hc)]
                  exact hnext
      · next hb =>
          rw [Traced.all_emit_bind, and_iff_right hstep,
            scanStops_cons (fun _ => hb) (not_sync_of_first hb)]
          exact hnext

-- ============================================================================
-- Calls and runs
-- ============================================================================

/-- The reads of one call, whatever the copies make of the handle. -/
theorem udpPieceMergeTraced_inside_iff (h : UdpPiece) (datagram after : List UInt8)
    (copyEffect : CopyEffect) :
    (udpPieceMergeTraced copyEffect h (datagram ++ after) datagram.length).All
        (ReadEvent.Inside datagram.length) ↔ ScanStops datagram := by
  have hscan := findSyncTraced_inside_iff after datagram []
  rw [List.nil_append, List.length_nil, Nat.zero_add] at hscan
  rw [udpPieceMergeTraced, Traced.all_emit_bind, Traced.all_bind, hscan]
  refine ⟨fun hall => hall.2.1, fun hstops => ⟨.inl (by simp), hstops, ?_⟩⟩
  rintro ⟨pieceBuf, tempSize⟩ hfound
  -- the scan keeps `piece_buf + temp_size`
  have hpos : pieceBuf + tempSize = datagram.length := by
    rw [findSyncTraced_result] at hfound
    have hle := (List.sublist_append_left datagram after).length_le
    rcases findSync_spec hle datagram.length 0 (Nat.zero_add _) with
      ⟨herr, -⟩ | ⟨pos, t, hok, hsum, -⟩
    · cases hfound.symm.trans herr
    · cases hfound.symm.trans hok
      exact hsum
  rw [Traced.all_bind]
  exact ⟨mergePiecesTraced_inside copyEffect tempSize h.toRecvGroup pieceBuf tempSize 0 hpos,
    fun _ _ => (Traced.all_pure _).mpr trivial⟩

/-- All bytes that a call of `udp_piece_merge` examines or copies are bytes of its
    datagram, and `temp_size` counts what is left of it or is 0. -/
def ReadsInside (h : UdpPiece) : RecvEvent → Prop
  | .merge datagram after =>
      ∀ copyEffect, (udpPieceMergeTraced copyEffect h (datagram ++ after) datagram.length).All
        (ReadEvent.Inside datagram.length)
  | .mergeEx _ => True
  | .reset => True

/-- The datagram of a call of `udp_piece_merge` stops its scan. -/
def RecvEvent.Stops : RecvEvent → Prop
  | .merge datagram _ => ScanStops datagram
  | .mergeEx _ => True
  | .reset => True

theorem readsInside_iff (h : UdpPiece) (e : RecvEvent) : ReadsInside h e ↔ e.Stops := by
  cases e with
  | merge datagram after =>
      have hcall := udpPieceMergeTraced_inside_iff h datagram after
      exact ⟨fun hall => (hcall copyPiece).mp (hall copyPiece),
        fun hstops copyEffect => (hcall copyEffect).mpr hstops⟩
  | mergeEx datagram => exact Iff.rfl
  | reset => exact Iff.rfl

/-- In a run of a receiver from any handle, the flat reassembler keeps inside its
    datagrams exactly when every one of them stops the scan. -/
theorem recv_reads_inside_iff (h₀ : UdpPiece) (events : List RecvEvent) :
    Along recvStep ReadsInside h₀ events ↔
      Along recvStep (fun _ e => e.Stops) h₀ events :=
  along_congr readsInside_iff h₀ events

/-- A datagram of the single byte `0xAF` on a fresh handle: the scan looks at
    offset 1. -/
theorem recv_reads_past :
    ReadEvent.examine 1 ∈
        (udpPieceMergeTraced copyPiece (zeroedHandle 64) ([0xAF] ++ [0]) 1).events ∧
      ¬ (ReadEvent.examine 1).Inside 1 ∧
      ¬ Along recvStep ReadsInside (zeroedHandle 64) [.merge [0xAF] [0]] := by
  refine ⟨?_, Nat.lt_irrefl 1, fun hall => ?_⟩
  · exact List.mem_cons_of_mem _ (List.mem_cons_of_mem _ (List.mem_cons_self ..))
  · exact not_scanStops_half ((readsInside_iff _ _).mp hall.1)

end LinuxCodeDemos.Udp

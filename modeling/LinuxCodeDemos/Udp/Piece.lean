/-
  LinuxCodeDemos.Udp.Piece

  The fragmenter and the two reassemblers of `socket/udp/udp-piece/udp-piece.c`,
  with the receive loop of `udp-piece-server.c`.

  - The `int` fields of `udp_piece_t` never go negative; the two counters that
    grow without a bound (`recv_pieces`, `recv_len`) wrap as 32-bit patterns.
  - `recv_buf` is a block of `Option` cells: `malloc` returns cells that hold
    no determined byte (`none`), a copy fills them.
  - Whether a `malloc` succeeds is the environment's choice; `heap` lists the
    outcomes of the calls to come (an exhausted list means success).
  - A copy outside `recv_buf` or through a null `recv_buf` is `Fault.write`.

  `udp_piece_merge` and `udp_piece_merge_ex` share the statements between the
  header reads and the end of a piece; these are `enterGroup`, `copyPiece` and
  `finishPiece`, and the two loops around them are separate, as in the source.
-/

import LinuxCodeDemos.Udp.CircularBuffer

namespace LinuxCodeDemos.Udp

open Lib

def headPosSyncWord : Nat := 0
def headPosTotalSize : Nat := 2
def headPosTotalPieces : Nat := 4
def headPosPIndex : Nat := 6
def headPosPLength : Nat := 8
def headSize : Nat := 12
def pieceFixSize : Nat := 512

/-- A block from `malloc`: `none` is a byte nobody has written yet. -/
abbrev Block := List (Option UInt8)

/-- The receive side of `udp_piece_t`. -/
structure RecvGroup where
  recvPieces : Nat
  totalSize : Nat
  totalPieces : Nat
  recvLen : Nat
  recvBuf : Option Block
  /-- Outcomes of the `malloc` calls to come. -/
  heap : List Bool
  deriving DecidableEq, Repr

/-- `udp_piece_t`. -/
structure UdpPiece extends RecvGroup where
  left : Nat
  pieceSize : Nat
  sendPtr : Option (List UInt8)
  pieceBuf : List UInt8
  circularBuffer : CircularBuffer
  deriving DecidableEq, Repr

-- ============================================================================
-- Handles
-- ============================================================================

/-- `udp_piece_init`, given the block `circular_buffer_init` was allocated and
    the outcomes of later `malloc` calls. -/
def udpPieceInit (bufSize : Nat) (block : Option (List UInt8)) (heap : List Bool) :
    Option UdpPiece :=
  match circularBufferInit bufSize block with
  | none => none
  | some rb => some
      { recvPieces := 0, totalSize := 0, totalPieces := 0, recvLen := 0, recvBuf := none, heap
        left := 0, pieceSize := 0, sendPtr := none
        pieceBuf := List.replicate (pieceFixSize + headSize + 1) 0
        circularBuffer := rb }

/-- The handle `udp_piece_init` returns when the allocator hands out zeroed
    memory and never fails. -/
def zeroedHandle (bufSize : Nat) : UdpPiece :=
  { recvPieces := 0, totalSize := 0, totalPieces := 0, recvLen := 0, recvBuf := none, heap := []
    left := 0, pieceSize := 0, sendPtr := none
    pieceBuf := List.replicate (pieceFixSize + headSize + 1) 0
    circularBuffer :=
      { begIndex := 0, endIndex := 0, size := 0, capacity := bufSize
        data := List.replicate bufSize 0 } }

theorem udpPieceInit_zeroed (bufSize : Nat) :
    udpPieceInit bufSize (some (List.replicate bufSize 0)) [] = some (zeroedHandle bufSize) := rfl

/-- `udp_piece_reset`. -/
def udpPieceReset (h : UdpPiece) : UdpPiece :=
  { h with
    recvBuf := none
    sendPtr := none
    recvPieces := 0
    totalSize := 0
    totalPieces := 0
    left := 0
    pieceSize := 0
    recvLen := 0
    circularBuffer := circularBufferReset h.circularBuffer }

-- ============================================================================
-- Cutting
-- ============================================================================

/-- `udp_piece_cut`: the handle and the number of pieces. -/
def udpPieceCut (h : UdpPiece) (buf : List UInt8) (size : Int) : UdpPiece × Nat :=
  if size < 0 then (h, 0)
  else
    let n := size.toNat
    let left := n % pieceFixSize
    let totalPieces := if left > 0 then n / pieceFixSize + 1 else n / pieceFixSize
    ({ h with sendPtr := some buf, totalSize := n, left, totalPieces }, totalPieces)

/-- The twelve header bytes `udp_piece_get` writes; each store truncates to a
    `uint8_t`, and bytes 10 and 11 keep the zero of the `memset`. -/
def pieceHead (totalSize totalPieces index pieceSize : Nat) : List UInt8 :=
  [0xAF, 0xAE,
    UInt8.ofNat (totalSize >>> 8), UInt8.ofNat (totalSize &&& 0xff),
    UInt8.ofNat (totalPieces >>> 8), UInt8.ofNat (totalPieces &&& 0xff),
    UInt8.ofNat (index >>> 8), UInt8.ofNat (index &&& 0xff),
    UInt8.ofNat (pieceSize >>> 8), UInt8.ofNat (pieceSize &&& 0xff), 0, 0]

/-- `udp_piece_get`: the handle with its `piece_buf` filled, and
    `*got_piece_size`. -/
def udpPieceGet (h : UdpPiece) (index : Nat) : Except Fault (UdpPiece × Nat) := do
  -- the last piece may be shorter
  let pieceSize :=
    if h.totalPieces = index + 1 ∧ h.left > 0 then h.left else pieceFixSize
  let zeroed := List.replicate (pieceFixSize + headSize + 1) (0 : UInt8)
  let headed ← store zeroed headPosSyncWord (pieceHead h.totalSize h.totalPieces index pieceSize)
  let data ← loadBytes (h.sendPtr.getD []) (pieceFixSize * index) pieceSize
  let filled ← store headed headSize data
  .ok ({ h with pieceBuf := filled }, pieceSize + headSize)

/-- The bytes handed to `sendto` for one piece. -/
def pieceDatagram (h : UdpPiece) (index : Nat) : Except Fault (List UInt8) := do
  let (h', got) ← udpPieceGet h index
  .ok (h'.pieceBuf.take got)

/-- What the client sends for a payload: `udp_piece_cut`, then
    `udp_piece_get (0)`, `udp_piece_get (1)`, ... -/
def cutDatagrams (h : UdpPiece) (buf : List UInt8) : Except Fault (List (List UInt8)) :=
  let (h', pieces) := udpPieceCut h buf buf.length
  (List.range pieces).mapM (pieceDatagram h')

-- ============================================================================
-- One piece, as both reassemblers treat it
-- ============================================================================

/-- `(hi << 8) + lo`. -/
def beWord (hi lo : UInt8) : Nat := (hi.toNat <<< 8) + lo.toNat

/-- `malloc (n)`: the block, if the environment grants it, and the outcomes
    left for later calls. -/
def malloc (heap : List Bool) (n : Nat) : Option Block × List Bool :=
  match heap with
  | [] => (some (List.replicate n none), [])
  | ok :: rest => (if ok then some (List.replicate n none) else none, rest)

/-- Begin a group: new totals, empty counters, a new `recv_buf`.  The left
    result is the state of a `return (-1)` after a failed `malloc`. -/
def startGroup (g : RecvGroup) (totalSize totalPieces recvPieces : Nat) :
    Except RecvGroup RecvGroup :=
  let (recvBuf, heap) := malloc g.heap (totalSize + 1)
  let g' : RecvGroup := { recvPieces, totalSize, totalPieces, recvLen := 0, recvBuf, heap }
  if recvBuf.isNone then .error g' else .ok g'

/-- From the header of a piece to the copy of its data: the first piece after a
    reset opens a group, a piece of another group replaces the current one. -/
def enterGroup (g : RecvGroup) (tempTotalSize tempTotalPieces : Nat) :
    Except RecvGroup RecvGroup := do
  let g ← if g.totalSize = 0 then startGroup g tempTotalSize tempTotalPieces 0 else .ok g
  let g := { g with recvPieces := addInt g.recvPieces 1 }
  if tempTotalSize ≠ g.totalSize ∨ tempTotalPieces ≠ g.totalPieces then
    startGroup g tempTotalSize tempTotalPieces 1
  else .ok g

/-- `memcpy (&recv_buf[PIECE_FIX_SIZE * p_index], data, data_len)`. -/
def copyPiece (g : RecvGroup) (pIndex : Nat) (data : List UInt8) : Except Fault RecvGroup := do
  let block ← store (g.recvBuf.getD []) (pieceFixSize * pIndex) (data.map some)
  .ok (if g.recvBuf.isNone then g else { g with recvBuf := some block })

/-- The accounting after the copy.  When the group has its pieces, the verdict
    says whether the byte total is right. -/
def finishPiece (g : RecvGroup) (dataLen : Nat) : RecvGroup × Option Bool :=
  let g := { g with recvLen := addInt g.recvLen dataLen }
  if g.recvPieces = g.totalPieces then
    ({ g with totalPieces := 0, recvPieces := 0 }, some (g.recvLen == g.totalSize))
  else (g, none)

-- ============================================================================
-- The flat reassembler
-- ============================================================================

/-- The sync scan of `udp_piece_merge`: at most `i` more steps from offset
    `pieceBuf`.  The second byte is only looked at when the first matches. -/
def findSync (buf : List UInt8) : Nat → Nat → Nat → Except Fault (Nat × Nat)
  | 0, pieceBuf, tempSize => .ok (pieceBuf, tempSize)
  | i + 1, pieceBuf, tempSize => do
      let b0 ← load buf pieceBuf
      if b0 = 0xAF then do
        let b1 ← load buf (pieceBuf + 1)
        if b1 = 0xAE then .ok (pieceBuf, tempSize)
        else findSync buf i (pieceBuf + 1) (tempSize - 1)
      else findSync buf i (pieceBuf + 1) (tempSize - 1)

/-- `(buf[off] << 8) + buf[off + 1]`. -/
def loadWord (buf : List UInt8) (off : Nat) : Except Fault Nat := do
  let hi ← load buf off
  let lo ← load buf (off + 1)
  .ok (beWord hi lo)

/-- The piece loop of `udp_piece_merge`.  `tempSize` drops by at least
    `headSize` per turn, so `tempSize` turns are always enough. -/
def mergePieces (buf : List UInt8) :
    Nat → RecvGroup → Nat → Nat → Int → Except Fault (RecvGroup × Int)
  | 0, g, _, _, getAllPieces => .ok (g, getAllPieces)
  | fuel + 1, g, pieceBuf, tempSize, getAllPieces =>
      if tempSize > headSize then do
        let dataLen ← loadWord buf (pieceBuf + headPosPLength)
        if tempSize ≥ headSize + dataLen then do
          let pIndex ← loadWord buf (pieceBuf + headPosPIndex)
          let tempTotalSize ← loadWord buf (pieceBuf + headPosTotalSize)
          let tempTotalPieces ← loadWord buf (pieceBuf + headPosTotalPieces)
          match enterGroup g tempTotalSize tempTotalPieces with
          | .error g => .ok (g, -1)
          | .ok g => do
              let data ← loadBytes buf (pieceBuf + headSize) dataLen
              let g ← copyPiece g pIndex data
              let (g, verdict) := finishPiece g dataLen
              mergePieces buf fuel g (pieceBuf + headSize + dataLen)
                (tempSize - headSize - dataLen)
                (match verdict with
                  | none => getAllPieces
                  | some true => 1
                  | some false => -1)
        else
          -- temp_size = 0
          .ok (g, getAllPieces)
      else .ok (g, getAllPieces)

/-- `udp_piece_merge`: `buf` is the memory behind the pointer, of which `size`
    bytes are the datagram. -/
def udpPieceMerge (h : UdpPiece) (buf : List UInt8) (size : Nat) :
    Except Fault (UdpPiece × Int) := do
  let (pieceBuf, tempSize) ← findSync buf size 0 size
  let (g, code) ← mergePieces buf tempSize h.toRecvGroup pieceBuf tempSize 0
  .ok ({ h with toRecvGroup := g }, code)

-- ============================================================================
-- The ring-buffer reassembler
-- ============================================================================

/-- Two `circular_buffer_get` calls and `(value0 << 8) + value1`.  The loops
    call it below the ring's size only, so no stale value is ever combined. -/
def ringWord (rb : CircularBuffer) (index : Nat) : Except Fault Nat := do
  let (_, value0) ← circularBufferGet rb index 0
  let (_, value1) ← circularBufferGet rb (index + 1) 0
  .ok (beWord value0 value1)

/-- The sync scan of `udp_piece_merge_ex`; every turn pops one byte. -/
def findSyncEx : Nat → CircularBuffer → Except Fault CircularBuffer
  | 0, rb => .ok rb
  | fuel + 1, rb =>
      if circularBufferSize rb ≥ 2 then do
        let (_, value0) ← circularBufferGet rb 0 0
        let (_, value1) ← circularBufferGet rb 1 0
        if value0 = 0xAF ∧ value1 = 0xAE then .ok rb
        else findSyncEx fuel (circularBufferPopFront rb 1)
      else .ok rb

/-- The piece loop of `udp_piece_merge_ex`; every turn pops a header.  A wrong
    byte total leaves `get_all_pieces` as it is (`get_all_pieces - 1;`). -/
def mergeExPieces : Nat → UdpPiece → Int → Except Fault (UdpPiece × Int)
  | 0, h, getAllPieces => .ok (h, getAllPieces)
  | fuel + 1, h, getAllPieces =>
      if circularBufferSize h.circularBuffer > headSize then do
        let dataLen ← ringWord h.circularBuffer headPosPLength
        if circularBufferSize h.circularBuffer ≥ headSize + dataLen then do
          let pIndex ← ringWord h.circularBuffer headPosPIndex
          let tmpTotalSize ← ringWord h.circularBuffer headPosTotalSize
          let tmpTotalPieces ← ringWord h.circularBuffer headPosTotalPieces
          match enterGroup h.toRecvGroup tmpTotalSize tmpTotalPieces with
          | .error g => .ok ({ h with toRecvGroup := g }, -1)
          | .ok g => do
              let rb := circularBufferPopFront h.circularBuffer headSize
              let (rb, data, bytesToRead) ← circularBufferRead rb dataLen
              let g ← copyPiece g pIndex data
              if bytesToRead ≠ dataLen then
                .ok ({ h with toRecvGroup := g, circularBuffer := rb }, -1)
              else
                let (g, verdict) := finishPiece g dataLen
                mergeExPieces fuel { h with toRecvGroup := g, circularBuffer := rb }
                  (match verdict with
                    | none => getAllPieces
                    | some true => 1
                    | some false => getAllPieces)
        else .ok (h, getAllPieces)
      else .ok (h, getAllPieces)

/-- `udp_piece_merge_ex`. -/
def udpPieceMergeEx (h : UdpPiece) (buf : List UInt8) (size : Nat) :
    Except Fault (UdpPiece × Int) := do
  let (rb, bytesToWrite) ← circularBufferWrite h.circularBuffer buf size
  if bytesToWrite ≠ size then .ok ({ h with circularBuffer := rb }, -1)
  else do
    let rb ← findSyncEx (circularBufferSize rb) rb
    mergeExPieces (circularBufferSize rb) { h with circularBuffer := rb } 0

-- ============================================================================
-- The receive loop of the server
-- ============================================================================

/-- `recv_buf[0..recv_len)`. -/
def recvFrame (h : UdpPiece) : Block := (h.recvBuf.getD []).take h.recvLen

/-- One turn of `echo_server` after `recvfrom` returned the bytes `recvbuf`: the
    frame is delivered on `1`, and every non-zero result resets the handle. -/
def echoServerTurn (h : UdpPiece) (recvbuf : List UInt8) :
    Except Fault (UdpPiece × Option Block) := do
  let (h', ret) ← udpPieceMergeEx h recvbuf recvbuf.length
  .ok (if ret = 1 then (udpPieceReset h', some (recvFrame h'))
    else if ret = 0 then (h', none)
    else (udpPieceReset h', none))

/-- `sizeof (recvbuf)` in `echo_server`. -/
def recvbufSize : Nat := 1024

/-- `recvfrom` and the turn it is for: a longer datagram is cut to `recvbuf`. -/
def echoServerRecv (h : UdpPiece) (datagram : List UInt8) :
    Except Fault (UdpPiece × Option Block) :=
  echoServerTurn h (datagram.take recvbufSize)

end LinuxCodeDemos.Udp

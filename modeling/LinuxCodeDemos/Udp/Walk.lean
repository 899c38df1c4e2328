/-
  LinuxCodeDemos.Udp.Walk

  Both reassemblers over plain byte lists.

  `walk` reads pieces off the front of a byte list and accounts for them in a
  `RecvGroup`, until the bytes left are not a whole piece; `skipSync` drops the
  bytes before the first sync word.  The flat `udp_piece_merge` is `walk` over
  the datagram (`udpPieceMerge_cases`), the ring-buffer `udp_piece_merge_ex` is
  `walk` over what the ring held followed by the datagram, and what `walk`
  leaves stays in the ring (`udpPieceMergeEx_spec`).  Both hold for arbitrary
  bytes.  The two differ in one place, the code after a group with a wrong byte
  total, which is the parameter `bad`.
-/

import LinuxCodeDemos.Udp.CircularBufferSpec
import LinuxCodeDemos.Udp.Piece

namespace LinuxCodeDemos.Udp

open Lib

-- ============================================================================
-- Pieces off the front of a byte list
-- ============================================================================

/-- The bytes from the first sync word on; a last single byte stays. -/
def skipSync : List UInt8 → List UInt8
  | [] => []
  | [a] => [a]
  | a :: b :: rest => if a = 0xAF ∧ b = 0xAE then a :: b :: rest else skipSync (b :: rest)

/-- The big-endian word at offset `i`. -/
def wordAt (bs : List UInt8) (i : Nat) : Nat := beWord (bs.getD i 0) (bs.getD (i + 1) 0)

theorem wordAt_of_lt {bs : List UInt8} {i : Nat} (h : i + 1 < bs.length) :
    wordAt bs i = beWord bs[i] bs[i + 1] := by
  simp only [wordAt, List.getD_eq_getElem?_getD, List.getElem?_eq_getElem h,
    List.getElem?_eq_getElem (show i < bs.length by omega), Option.getD_some]

/-- What becomes of one piece: no memory for its group, or taken, with the
    verdict when it completes the group's count. -/
inductive Accept where
  | noMemory (g : RecvGroup)
  | taken (g : RecvGroup) (verdict : Option Bool)
  deriving DecidableEq

/-- The handling of one piece, from its header fields and its data. -/
def acceptPiece (g : RecvGroup) (totalSize totalPieces pIndex : Nat) (data : List UInt8) :
    Except Fault Accept :=
  match enterGroup g totalSize totalPieces with
  | .error g => .ok (.noMemory g)
  | .ok g => do
      let g ← copyPiece g pIndex data
      .ok (.taken (finishPiece g data.length).1 (finishPiece g data.length).2)

/-- `get_all_pieces` after a piece; `bad` is what a wrong byte total makes of it. -/
def codeAfter (bad : Int → Int) (code : Int) : Option Bool → Int
  | none => code
  | some true => 1
  | some false => bad code

/-- `udp_piece_merge` stores `-1` on a wrong byte total. -/
def flatBad : Int → Int := fun _ => -1

/-- `udp_piece_merge_ex` evaluates `get_all_pieces - 1` and drops the result. -/
def ringBad : Int → Int := fun code => code

/-- Pieces off the front of `bs`: the group, the bytes left and the code. -/
def walk (bad : Int → Int) (g : RecvGroup) (bs : List UInt8) (code : Int) :
    Except Fault (RecvGroup × List UInt8 × Int) :=
  if bs.length > headSize then
    if bs.length ≥ headSize + wordAt bs headPosPLength then
      match acceptPiece g (wordAt bs headPosTotalSize) (wordAt bs headPosTotalPieces)
          (wordAt bs headPosPIndex) ((bs.drop headSize).take (wordAt bs headPosPLength)) with
      | .error f => .error f
      | .ok (.noMemory g) => .ok (g, bs, -1)
      | .ok (.taken g verdict) =>
          walk bad g (bs.drop (headSize + wordAt bs headPosPLength)) (codeAfter bad code verdict)
    else .ok (g, bs, code)
  else .ok (g, bs, code)
termination_by bs.length
decreasing_by
  rw [List.length_drop]
  simp only [headSize] at *
  omega

theorem walk_of_short {bad : Int → Int} {g : RecvGroup} {bs : List UInt8} {code : Int}
    (h : bs.length ≤ headSize) : walk bad g bs code = .ok (g, bs, code) := by
  rw [walk, if_neg (by omega)]

theorem walk_of_partial {bad : Int → Int} {g : RecvGroup} {bs : List UInt8} {code : Int}
    (h : bs.length < headSize + wordAt bs headPosPLength) :
    walk bad g bs code = .ok (g, bs, code) := by
  rw [walk]
  split
  · rw [if_neg (by omega)]
  · rfl

theorem walk_of_whole {bad : Int → Int} {g : RecvGroup} {bs : List UInt8} {code : Int}
    (h : headSize < bs.length) (hwhole : headSize + wordAt bs headPosPLength ≤ bs.length) :
    walk bad g bs code =
      match acceptPiece g (wordAt bs headPosTotalSize) (wordAt bs headPosTotalPieces)
          (wordAt bs headPosPIndex) ((bs.drop headSize).take (wordAt bs headPosPLength)) with
      | .error f => .error f
      | .ok (.noMemory g) => .ok (g, bs, -1)
      | .ok (.taken g verdict) =>
          walk bad g (bs.drop (headSize + wordAt bs headPosPLength))
            (codeAfter bad code verdict) := by
  rw [walk, if_pos h, if_pos hwhole]

-- ============================================================================
-- The flat reassembler is `walk` over the datagram
-- ============================================================================

section Flat

variable {buf : List UInt8} {size : Nat}

theorem load_eq_getD {off i : Nat} (hsize : size ≤ buf.length) (hi : off + i < size) :
    load buf (off + i) = .ok (((buf.take size).drop off).getD i 0) := by
  rw [load_of_lt (show off + i < buf.length by omega), List.getD_eq_getElem?_getD,
    List.getElem?_drop, List.getElem?_take_of_lt hi,
    List.getElem?_eq_getElem (show off + i < buf.length by omega)]
  rfl

theorem loadWord_eq {off i : Nat} (hsize : size ≤ buf.length) (hi : off + i + 1 < size) :
    loadWord buf (off + i) = .ok (wordAt ((buf.take size).drop off) i) := by
  have h0 := load_eq_getD hsize (show off + i < size by omega)
  have h1 := load_eq_getD hsize (show off + (i + 1) < size by omega)
  simp only [loadWord, h0, Nat.add_assoc off i 1, h1, wordAt]
  rfl

theorem loadBytes_eq {off n : Nat} (hsize : size ≤ buf.length) (hn : off + headSize + n ≤ size) :
    loadBytes buf (off + headSize) n
      = .ok ((((buf.take size).drop off).drop headSize).take n) := by
  rw [loadBytes_of_le (by omega), List.drop_drop, List.drop_take, List.take_take,
    Nat.min_eq_left (by omega)]

/-- The piece loop is `walk` over the rest of the datagram. -/
theorem mergePieces_eq_walk (hsize : size ≤ buf.length) :
    ∀ (fuel : Nat) (g : RecvGroup) (pieceBuf tempSize : Nat) (code : Int),
      pieceBuf + tempSize = size → tempSize ≤ fuel →
      mergePieces buf fuel g pieceBuf tempSize code =
        (walk flatBad g ((buf.take size).drop pieceBuf) code).map (fun x => (x.1, x.2.2)) := by
  intro fuel
  induction fuel with
  | zero =>
      intro g pieceBuf tempSize code hpos hfuel
      have hlen : ((buf.take size).drop pieceBuf).length = 0 := by
        rw [List.length_drop, List.length_take]; omega
      rw [walk_of_short (by omega)]
      rfl
  | succ fuel ih =>
      intro g pieceBuf tempSize code hpos hfuel
      have hlen : ((buf.take size).drop pieceBuf).length = tempSize := by
        rw [List.length_drop, List.length_take]; omega
      rw [mergePieces]
      by_cases hhead : tempSize > headSize
      · have hw : ∀ i, i + 1 < headSize →
            loadWord buf (pieceBuf + i) = .ok (wordAt ((buf.take size).drop pieceBuf) i) :=
          fun i hi => loadWord_eq hsize (by omega)
        have hdata := fun n (hn : pieceBuf + headSize + n ≤ size) => loadBytes_eq hsize hn
        have hnext : ∀ n, (buf.take size).drop (pieceBuf + headSize + n)
            = ((buf.take size).drop pieceBuf).drop (headSize + n) := by
          intro n
          rw [List.drop_drop, Nat.add_assoc]
        generalize (buf.take size).drop pieceBuf = bs at hlen hw hdata hnext ⊢
        simp only [if_pos hhead, hw headPosPLength (by decide), hw headPosPIndex (by decide),
          hw headPosTotalSize (by decide), hw headPosTotalPieces (by decide), bind, Except.bind]
        by_cases hwhole : tempSize ≥ headSize + wordAt bs headPosPLength
        · have hdlen : ((bs.drop headSize).take (wordAt bs headPosPLength)).length
              = wordAt bs headPosPLength := by
            rw [List.length_take, List.length_drop, hlen]; omega
          rw [if_pos hwhole, walk_of_whole (by omega) (by omega), acceptPiece,
            hdata _ (by omega)]
          cases enterGroup g (wordAt bs headPosTotalSize) (wordAt bs headPosTotalPieces) with
          | error g' => rfl
          | ok g' =>
              simp only [bind, Except.bind]
              cases copyPiece g' (wordAt bs headPosPIndex)
                  ((bs.drop headSize).take (wordAt bs headPosPLength)) with
              | error f => rfl
              | ok g'' =>
                  simp only [hdlen]
                  rw [ih _ _ _ _ (by omega) (by simp only [headSize] at *; omega), hnext]
                  congr 2
        · rw [if_neg hwhole, walk_of_partial (by omega)]
          rfl
      · rw [if_neg hhead, walk_of_short (by omega)]
        rfl

/-- The sync scan leaves what `skipSync` leaves of the datagram.  It can only
    fault by looking one byte past the datagram, and then it found no sync
    word. -/
theorem findSync_spec (hsize : size ≤ buf.length) :
    ∀ (tempSize pieceBuf : Nat), pieceBuf + tempSize = size →
      (findSync buf tempSize pieceBuf tempSize = .error .read ∧
        (skipSync ((buf.take size).drop pieceBuf)).length ≤ 1) ∨
      ∃ pos t, findSync buf tempSize pieceBuf tempSize = .ok (pos, t) ∧ pos + t = size ∧
        ((buf.take size).drop pos = skipSync ((buf.take size).drop pieceBuf) ∨
          t ≤ 1 ∧ (skipSync ((buf.take size).drop pieceBuf)).length ≤ 1) := by
  intro tempSize
  induction tempSize with
  | zero =>
      intro pieceBuf hpos
      refine .inr ⟨pieceBuf, 0, rfl, hpos, .inr ⟨by omega, ?_⟩⟩
      rw [List.drop_eq_nil_of_le (by rw [List.length_take]; omega)]
      simp [skipSync]
  | succ n ih =>
      intro pieceBuf hpos
      have hlt : pieceBuf < buf.length := by omega
      have hcons : (buf.take size).drop pieceBuf
          = buf[pieceBuf] :: (buf.take size).drop (pieceBuf + 1) := by
        rw [List.drop_eq_getElem_cons (by rw [List.length_take]; omega), List.getElem_take]
      simp only [findSync, load_of_lt hlt, bind, Except.bind, Nat.add_sub_cancel]
      by_cases hlast : n = 0
      · -- the last byte of the datagram: no room for a sync word
        subst hlast
        have hnil : (buf.take size).drop (pieceBuf + 1) = [] :=
          List.drop_eq_nil_of_le (by rw [List.length_take]; omega)
        have hone : (skipSync ((buf.take size).drop pieceBuf)).length ≤ 1 := by
          rw [hcons, hnil]
          simp [skipSync]
        split
        · by_cases hnext : pieceBuf + 1 < buf.length
          · simp only [load_of_lt hnext]
            split
            · exact .inr ⟨pieceBuf, _, rfl, by omega, .inr ⟨by omega, hone⟩⟩
            · exact .inr ⟨pieceBuf + 1, 0, rfl, by omega, .inr ⟨by omega, hone⟩⟩
          · refine .inl ⟨?_, hone⟩
            rw [load, List.getElem?_eq_none (by omega)]
        · exact .inr ⟨pieceBuf + 1, 0, rfl, by omega, .inr ⟨by omega, hone⟩⟩
      · have hlt1 : pieceBuf + 1 < buf.length := by omega
        have hcons1 : (buf.take size).drop (pieceBuf + 1)
            = buf[pieceBuf + 1] :: (buf.take size).drop (pieceBuf + 1 + 1) := by
          rw [List.drop_eq_getElem_cons (by rw [List.length_take]; omega), List.getElem_take]
        -- one step of the scan on both sides
        have hskip : ¬ (buf[pieceBuf] = 0xAF ∧ buf[pieceBuf + 1] = 0xAE) →
            skipSync ((buf.take size).drop pieceBuf)
              = skipSync ((buf.take size).drop (pieceBuf + 1)) := by
          intro hne
          rw [hcons, hcons1, skipSync, if_neg hne]
        simp only [load_of_lt hlt1]
        split
        · next h0 =>
            split
            · next h1 =>
                refine .inr ⟨pieceBuf, _, rfl, hpos, .inl ?_⟩
                rw [hcons, hcons1, skipSync, if_pos ⟨h0, h1⟩]
            · next h1 =>
                rw [hskip (fun hc => h1 hc.2)]
                exact ih (pieceBuf + 1) (by omega)
        · next h0 =>
            rw [hskip (fun hc => h0 hc.1)]
            exact ih (pieceBuf + 1) (by omega)

/-- `udp_piece_merge` over arbitrary bytes: `walk` over the datagram from its
    first sync word on, or the scan reads past a datagram without one. -/
theorem udpPieceMerge_cases (h : UdpPiece) (hsize : size ≤ buf.length) :
    (udpPieceMerge h buf size = .error .read ∧ (skipSync (buf.take size)).length ≤ 1) ∨
    udpPieceMerge h buf size =
      (walk flatBad h.toRecvGroup (skipSync (buf.take size)) 0).map
        (fun x => ({ h with toRecvGroup := x.1 }, x.2.2)) := by
  have hscan := findSync_spec hsize size 0 (by omega)
  rw [List.drop_zero] at hscan
  rcases hscan with ⟨hx, hlen⟩ | ⟨pos, t, hx, hpos, hrest⟩
  · exact .inl ⟨by simp only [udpPieceMerge, hx, bind, Except.bind], hlen⟩
  · refine .inr ?_
    simp only [udpPieceMerge, hx, bind, Except.bind]
    rw [mergePieces_eq_walk hsize t h.toRecvGroup pos t 0 hpos (Nat.le_refl t)]
    rcases hrest with heq | ⟨ht, hlen⟩
    · rw [heq]
      cases walk flatBad h.toRecvGroup (skipSync (buf.take size)) 0 <;> rfl
    · -- fewer than two bytes: no piece on either side
      rw [walk_of_short (by rw [List.length_drop, List.length_take, headSize]; omega),
        walk_of_short (by rw [headSize]; omega)]
      rfl

end Flat

-- ============================================================================
-- The ring-buffer reassembler is `walk` over the ring's contents
-- ============================================================================

/-- The header reads `index + beg_index_` of a ring stay in `int`: either the
    capacity is small enough, or the ring cannot have come that far. -/
def Headroom (rb : CircularBuffer) (incoming : Nat) : Prop :=
  min (rb.begIndex + rb.size + incoming) rb.capacity + headSize ≤ intMax

section Ringed

variable {rb : CircularBuffer} {q : List UInt8}

theorem Headroom.get_ok {incoming index : Nat} (h : Headroom rb incoming)
    (hinv : RingInv rb q) (hi : index < headSize) : index + rb.begIndex ≤ intMax := by
  have hbeg := hinv.beg_lt
  unfold Headroom at h
  omega

theorem Headroom.popFront {incoming n : Nat} (h : Headroom rb incoming) (hinv : RingInv rb q) :
    Headroom (circularBufferPopFront rb n) incoming := by
  obtain ⟨hinv', hcap, hbeg⟩ := circularBufferPopFront_spec hinv n
  have hs := hinv.size
  have hs' := hinv'.size
  rw [List.length_drop] at hs'
  unfold Headroom at *
  omega

/-- The longest ring whose header reads cannot leave `int`. -/
def ringMax : Nat := intMax - headSize

theorem headroom_of_le {rb : CircularBuffer} (h : rb.capacity ≤ ringMax) (incoming : Nat) :
    Headroom rb incoming := by
  simp only [Headroom, ringMax, intMax, headSize] at *
  omega

/-- A header word of the ring: the word of its contents, unless the index sum
    leaves `int`. -/
theorem ringWord_cases (hinv : RingInv rb q) (incoming : Nat) {index : Nat}
    (hi : index + 1 < q.length) (hhead : index + 1 < headSize) :
    ringWord rb index = .ok (wordAt q index) ∨
      ringWord rb index = .error .overflow ∧ ¬ Headroom rb incoming := by
  rcases circularBufferGet_cases hinv (show index < q.length by omega) 0 with h0 | ⟨h0, hover⟩
  · rcases circularBufferGet_cases hinv hi 0 with h1 | ⟨h1, hover⟩
    · refine .inl ?_
      simp only [ringWord, h0, h1, wordAt_of_lt hi]
      rfl
    · refine .inr ⟨by simp only [ringWord, h0, h1]; rfl, fun hroom => ?_⟩
      have := hroom.get_ok hinv hhead
      omega
  · refine .inr ⟨by simp only [ringWord, h0]; rfl, fun hroom => ?_⟩
    have := hroom.get_ok hinv (show index < headSize by omega)
    omega

/-- The sync scan of the ring leaves what `skipSync` leaves of its contents. -/
theorem findSyncEx_spec (incoming : Nat) :
    ∀ (fuel : Nat) (rb : CircularBuffer) (q : List UInt8), RingInv rb q → q.length ≤ fuel →
      (findSyncEx fuel rb = .error .overflow ∧ ¬ Headroom rb incoming) ∨
      ∃ rb', findSyncEx fuel rb = .ok rb' ∧ RingInv rb' (skipSync q) ∧
        (Headroom rb incoming → Headroom rb' incoming) ∧ rb'.capacity = rb.capacity ∧
        rb'.begIndex + (skipSync q).length ≤ rb.begIndex + q.length := by
  intro fuel
  induction fuel with
  | zero =>
      intro rb q hinv hfuel
      have hq : q = [] := List.eq_nil_of_length_eq_zero (by omega)
      subst hq
      exact .inr ⟨rb, rfl, hinv, id, rfl, Nat.le_refl _⟩
  | succ fuel ih =>
      intro rb q hinv hfuel
      match q, hinv with
      | [], hinv =>
          refine .inr ⟨rb, ?_, hinv, id, rfl, Nat.le_refl _⟩
          rw [findSyncEx, circularBufferSize, hinv.size, if_neg (by simp)]
      | [a], hinv =>
          refine .inr ⟨rb, ?_, hinv, id, rfl, Nat.le_refl _⟩
          rw [findSyncEx, circularBufferSize, hinv.size, if_neg (by simp)]
      | a :: b :: rest, hinv =>
          have hsize : circularBufferSize rb ≥ 2 := by
            rw [circularBufferSize, hinv.size]
            simp
          rw [findSyncEx, if_pos hsize]
          rcases circularBufferGet_cases hinv (show 0 < _ by simp) 0 with h0 | ⟨h0, hover⟩
          · rcases circularBufferGet_cases hinv (show 1 < _ by simp) 0 with h1 | ⟨h1, hover⟩
            · simp only [h0, h1, bind, Except.bind, List.getElem_cons_zero,
                List.getElem_cons_succ, skipSync]
              split
              · exact .inr ⟨rb, rfl, hinv, id, rfl, Nat.le_refl _⟩
              · obtain ⟨hpop, hcap, hbeg⟩ := circularBufferPopFront_spec hinv 1
                rcases ih _ _ hpop
                  (by simp only [List.length_drop, List.length_cons] at hfuel ⊢; omega)
                  with ⟨hrun, hno⟩ | ⟨rb', hrun, hinv', hroom', hcap', hle⟩
                · exact .inl ⟨hrun, fun hroom => hno (hroom.popFront hinv)⟩
                · refine .inr ⟨rb', hrun, hinv', fun hroom => hroom' (hroom.popFront hinv),
                    hcap'.trans hcap, Nat.le_trans hle ?_⟩
                  simp only [List.length_drop, List.length_cons] at hbeg ⊢
                  omega
            · refine .inl ⟨by simp only [h0, h1, bind, Except.bind], fun hroom => ?_⟩
              have := hroom.get_ok hinv (show 1 < headSize by decide)
              omega
          · refine .inl ⟨by simp only [h0, bind, Except.bind], fun hroom => ?_⟩
            have := hroom.get_ok hinv (show 0 < headSize by decide)
            omega

/-- A call of the ring reassembler, compared with a result of `walk`: the same
    fault, or the same group and code with the rest of the bytes in the ring. -/
def RingOutcome (h : UdpPiece) (reach : Nat) (res : Except Fault (RecvGroup × List UInt8 × Int))
    (out : Except Fault (UdpPiece × Int)) : Prop :=
  match res with
  | .error f => out = .error f
  | .ok (g, rest, code) => ∃ rb, out = .ok ({ h with toRecvGroup := g, circularBuffer := rb }, code) ∧
      RingInv rb rest ∧ rb.capacity = h.circularBuffer.capacity ∧
      rb.begIndex + rest.length ≤ reach

theorem RingOutcome.mono {h : UdpPiece} {reach reach' : Nat}
    {res : Except Fault (RecvGroup × List UInt8 × Int)} {out : Except Fault (UdpPiece × Int)}
    (ho : RingOutcome h reach res out) (hle : reach ≤ reach') : RingOutcome h reach' res out := by
  cases res with
  | error f => exact ho
  | ok x =>
      obtain ⟨rb, h1, h2, h3, h4⟩ := ho
      exact ⟨rb, h1, h2, h3, Nat.le_trans h4 hle⟩

/-- Only the group and the ring of the handle change over a call. -/
theorem RingOutcome.frame {h : UdpPiece} {g : RecvGroup} {rb : CircularBuffer} {reach : Nat}
    {res : Except Fault (RecvGroup × List UInt8 × Int)} {out : Except Fault (UdpPiece × Int)}
    (ho : RingOutcome { h with toRecvGroup := g, circularBuffer := rb } reach res out)
    (hcap : rb.capacity = h.circularBuffer.capacity) : RingOutcome h reach res out := by
  cases res with
  | error f => exact ho
  | ok x =>
      obtain ⟨rb', h1, h2, h3, h4⟩ := ho
      exact ⟨rb', h1, h2, h3.trans hcap, h4⟩

/-- A whole piece leaves the ring: the header is popped, the data is read out. -/
theorem circularBufferRead_piece (hinv : RingInv rb q) (incoming : Nat) {dataLen : Nat}
    (hwhole : headSize + dataLen ≤ q.length) :
    ∃ rb', circularBufferRead (circularBufferPopFront rb headSize) dataLen
        = .ok (rb', (q.drop headSize).take dataLen, dataLen) ∧
      RingInv rb' (q.drop (headSize + dataLen)) ∧ rb'.capacity = rb.capacity ∧
      rb'.begIndex + (q.drop (headSize + dataLen)).length ≤ rb.begIndex + q.length ∧
      (Headroom rb incoming → Headroom rb' incoming) := by
  have hmin : min dataLen (q.drop headSize).length = dataLen := by
    rw [List.length_drop]
    omega
  obtain ⟨hpop, hcap, hbeg⟩ := circularBufferPopFront_spec hinv headSize
  have hread := circularBufferRead_spec hpop dataLen
  obtain ⟨hpop', hcap', hbeg'⟩ := circularBufferPopFront_spec hpop dataLen
  rw [hmin] at hread hbeg'
  rw [List.drop_drop] at hpop'
  refine ⟨_, hread, hpop', hcap'.trans hcap, ?_, fun hroom => (hroom.popFront hinv).popFront hpop⟩
  rw [List.length_drop]
  omega

/-- The piece loop is `walk` over the contents of the ring, unless the index
    sum of a header read leaves `int`. -/
theorem mergeExPieces_walk (incoming : Nat) :
    ∀ (fuel : Nat) (h : UdpPiece) (q : List UInt8) (code : Int), RingInv h.circularBuffer q →
      q.length ≤ fuel →
      (mergeExPieces fuel h code = .error .overflow ∧ ¬ Headroom h.circularBuffer incoming) ∨
      RingOutcome h (h.circularBuffer.begIndex + q.length)
        (walk ringBad h.toRecvGroup q code) (mergeExPieces fuel h code) := by
  intro fuel
  induction fuel with
  | zero =>
      intro h q code hinv hfuel
      rw [walk_of_short (by omega)]
      exact .inr ⟨h.circularBuffer, rfl, hinv, rfl, Nat.le_refl _⟩
  | succ fuel ih =>
      intro h q code hinv hfuel
      rw [mergeExPieces]
      by_cases hhead : q.length > headSize
      · have hw : ∀ i, i + 1 < headSize → ringWord h.circularBuffer i = .ok (wordAt q i) ∨
            ringWord h.circularBuffer i = .error .overflow ∧
              ¬ Headroom h.circularBuffer incoming :=
          fun i hi => ringWord_cases hinv incoming (by omega) hi
        simp only [circularBufferSize, hinv.size, if_pos hhead]
        rcases hw headPosPLength (by decide) with hlen | ⟨hlen, hno⟩
        swap
        · exact .inl ⟨by simp only [hlen, bind, Except.bind], hno⟩
        simp only [hlen, bind, Except.bind]
        by_cases hwhole : q.length ≥ headSize + wordAt q headPosPLength
        · rw [if_pos hwhole, walk_of_whole (by omega) (by omega), acceptPiece]
          rcases hw headPosPIndex (by decide) with hidx | ⟨hidx, hno⟩
          swap
          · exact .inl ⟨by simp only [hidx], hno⟩
          rcases hw headPosTotalSize (by decide) with hts | ⟨hts, hno⟩
          swap
          · exact .inl ⟨by simp only [hidx, hts], hno⟩
          rcases hw headPosTotalPieces (by decide) with htp | ⟨htp, hno⟩
          swap
          · exact .inl ⟨by simp only [hidx, hts, htp], hno⟩
          simp only [hidx, hts, htp]
          have hdlen : ((q.drop headSize).take (wordAt q headPosPLength)).length
              = wordAt q headPosPLength := by
            rw [List.length_take, List.length_drop]; omega
          cases enterGroup h.toRecvGroup (wordAt q headPosTotalSize)
              (wordAt q headPosTotalPieces) with
          | error g => exact .inr ⟨h.circularBuffer, rfl, hinv, rfl, Nat.le_refl _⟩
          | ok g =>
              obtain ⟨rb', hread, hinv', hcap, hreach, hroom'⟩ :=
                circularBufferRead_piece hinv incoming hwhole
              simp only [hread, bind, Except.bind]
              cases copyPiece g (wordAt q headPosPIndex)
                  ((q.drop headSize).take (wordAt q headPosPLength)) with
              | error f => exact .inr rfl
              | ok g' =>
                  simp only [hdlen, ne_eq, not_true_eq_false, if_false]
                  have hrec := ih { h with
                      toRecvGroup := (finishPiece g' (wordAt q headPosPLength)).1
                      circularBuffer := rb' } _
                    (codeAfter ringBad code (finishPiece g' (wordAt q headPosPLength)).2)
                    hinv' (by rw [List.length_drop]; simp only [headSize]; omega)
                  rcases hrec with ⟨hover, hno⟩ | hrec
                  · exact .inl ⟨hover, fun hroom => hno (hroom' hroom)⟩
                  · exact .inr ((hrec.mono hreach).frame hcap)
        · rw [if_neg hwhole, walk_of_partial (by omega)]
          exact .inr ⟨h.circularBuffer, rfl, hinv, rfl, Nat.le_refl _⟩
      · simp only [circularBufferSize, hinv.size, if_neg hhead]
        rw [walk_of_short (by omega)]
        exact .inr ⟨h.circularBuffer, rfl, hinv, rfl, Nat.le_refl _⟩

/-- `udp_piece_merge_ex` over arbitrary bytes that fit the free space: `walk`
    over what the ring held and the new bytes, after the sync scan; or the index
    sum of a read leaves `int`. -/
theorem udpPieceMergeEx_cases {h : UdpPiece} {buf : List UInt8}
    (hinv : RingInv h.circularBuffer q)
    (hfit : q.length + buf.length ≤ h.circularBuffer.capacity) :
    (udpPieceMergeEx h buf buf.length = .error .overflow ∧
      ¬ Headroom h.circularBuffer buf.length) ∨
    RingOutcome h (h.circularBuffer.begIndex + (q.length + buf.length))
      (walk ringBad h.toRecvGroup (skipSync (q ++ buf)) 0)
      (udpPieceMergeEx h buf buf.length) := by
  obtain ⟨rb, hw, hinv₁, hcap₁, hbeg₁⟩ := circularBufferWrite_spec hinv (Nat.le_refl buf.length)
  rw [Nat.min_eq_left (by omega), List.take_length] at hinv₁
  rw [Nat.min_eq_left (by omega)] at hw
  have hroom₁ : Headroom h.circularBuffer buf.length → Headroom rb 0 := by
    intro hroom
    have hs := hinv.size
    have hs₁ := hinv₁.size
    rw [List.length_append] at hs₁
    unfold Headroom at *
    omega
  simp only [udpPieceMergeEx, hw, bind, Except.bind, ne_eq, not_true_eq_false, if_false]
  rcases findSyncEx_spec 0 (circularBufferSize rb) rb _ hinv₁
      (Nat.le_of_eq hinv₁.size.symm) with
    ⟨hscan, hno⟩ | ⟨rb', hscan, hinv₂, hroom₂, hcap₂, hbeg₂⟩
  · exact .inl ⟨by simp only [hscan], fun hroom => hno (hroom₁ hroom)⟩
  · simp only [hscan]
    rw [List.length_append, hbeg₁] at hbeg₂
    rcases mergeExPieces_walk 0 (circularBufferSize rb')
        { h with circularBuffer := rb' } _ 0 hinv₂ (Nat.le_of_eq hinv₂.size.symm) with
      ⟨hover, hno⟩ | hwalk
    · exact .inl ⟨hover, fun hroom => hno (hroom₂ (hroom₁ hroom))⟩
    · exact .inr ((hwalk.mono hbeg₂).frame (g := h.toRecvGroup) (hcap₂.trans hcap₁))

/-- With headroom the ring reassembler is `walk`. -/
theorem udpPieceMergeEx_spec {h : UdpPiece} {buf : List UInt8}
    (hinv : RingInv h.circularBuffer q) (hroom : Headroom h.circularBuffer buf.length)
    (hfit : q.length + buf.length ≤ h.circularBuffer.capacity) :
    RingOutcome h (h.circularBuffer.begIndex + (q.length + buf.length))
      (walk ringBad h.toRecvGroup (skipSync (q ++ buf)) 0)
      (udpPieceMergeEx h buf buf.length) := by
  rcases udpPieceMergeEx_cases hinv hfit with ⟨-, hno⟩ | hout
  · exact absurd hroom hno
  · exact hout

/-- Bytes that do not fit are cut off, and the call gives up. -/
theorem udpPieceMergeEx_full {h : UdpPiece} {buf : List UInt8}
    (hinv : RingInv h.circularBuffer q)
    (hfull : h.circularBuffer.capacity < q.length + buf.length) :
    ∃ rb q', udpPieceMergeEx h buf buf.length = .ok ({ h with circularBuffer := rb }, -1) ∧
      RingInv rb q' ∧ rb.capacity = h.circularBuffer.capacity := by
  obtain ⟨rb, hw, hinv₁, hcap₁, -⟩ := circularBufferWrite_spec hinv (Nat.le_refl buf.length)
  have hle := hinv.length_le
  refine ⟨rb, _, ?_, hinv₁, hcap₁⟩
  simp only [udpPieceMergeEx, hw, bind, Except.bind]
  rw [if_pos (by omega)]

end Ringed

end LinuxCodeDemos.Udp

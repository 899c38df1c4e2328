/-
  LinuxCodeDemos.Udp.Bounds

  Where the copies into `recv_buf` land, for arbitrary bytes from the network.

  The block of a group has `total_size + 1` bytes, and once a piece has entered
  its group that `total_size` is the one the piece announces: the group test
  replaces the block whenever a piece announces another.  So the copy of a
  piece stays inside exactly when `512 * p_index + data_len` is at most its own
  `total_size + 1`, whatever came before.  Nothing in the code checks this.
  The other way to a stray copy is a block that `malloc` refused and that a
  further piece of the same group is copied to.
-/

import LinuxCodeDemos.Udp.Walk

namespace LinuxCodeDemos.Udp

open Lib

-- ============================================================================
-- The pieces the code finds in a byte list
-- ============================================================================

/-- The header fields of a piece. -/
structure Frame where
  totalSize : Nat
  totalPieces : Nat
  pIndex : Nat
  dataLen : Nat
  deriving DecidableEq, Repr

/-- The piece at the front of `bs`. -/
def frameAt (bs : List UInt8) : Frame :=
  { totalSize := wordAt bs headPosTotalSize
    totalPieces := wordAt bs headPosTotalPieces
    pIndex := wordAt bs headPosPIndex
    dataLen := wordAt bs headPosPLength }

/-- The whole pieces at the front of `bs`, one after the other. -/
def framesOf (bs : List UInt8) : List Frame :=
  if headSize < bs.length ∧ headSize + wordAt bs headPosPLength ≤ bs.length then
    frameAt bs :: framesOf (bs.drop (headSize + wordAt bs headPosPLength))
  else []
termination_by bs.length
decreasing_by
  rw [List.length_drop]
  simp only [headSize] at *
  omega

/-- The data of the piece lies in the `total_size + 1` bytes it announces. -/
def Frame.Inside (f : Frame) : Prop :=
  f.dataLen = 0 ∨ pieceFixSize * f.pIndex + f.dataLen ≤ f.totalSize + 1

instance (f : Frame) : Decidable f.Inside := inferInstanceAs (Decidable (_ ∨ _))

theorem framesOf_whole {bs : List UInt8} (h : headSize < bs.length)
    (hwhole : headSize + wordAt bs headPosPLength ≤ bs.length) :
    framesOf bs = frameAt bs :: framesOf (bs.drop (headSize + wordAt bs headPosPLength)) := by
  rw [framesOf, if_pos ⟨h, hwhole⟩]

theorem framesOf_of_short {bs : List UInt8} (h : bs.length ≤ headSize) : framesOf bs = [] := by
  rw [framesOf, if_neg (by omega)]

-- ============================================================================
-- The block of a group
-- ============================================================================

/-- A block, when there is one, has room for `total_size + 1` bytes. -/
def BlockInv (g : RecvGroup) : Prop := ∀ block, g.recvBuf = some block →
  block.length = g.totalSize + 1

/-- There is a block, or the next piece asks for one: no failed `malloc` is
    waiting for a reset. -/
def Backed (g : RecvGroup) : Prop := g.recvBuf.isSome ∨ g.totalSize = 0

/-- A new group has a block of its size, or none. -/
theorem startGroup_cases (g : RecvGroup) (ts tp n : Nat) :
    (∃ g', startGroup g ts tp n = .ok g' ∧ g'.totalSize = ts ∧ g'.totalPieces = tp ∧
      g'.recvBuf = some (List.replicate (ts + 1) none) ∧ (g.heap = [] → g'.heap = [])) ∨
    ∃ g', startGroup g ts tp n = .error g' ∧ g'.recvBuf = none ∧ g.heap ≠ [] := by
  unfold startGroup malloc
  cases g.heap with
  | nil => exact .inl ⟨_, rfl, rfl, rfl, rfl, fun _ => rfl⟩
  | cons ok rest =>
      cases ok with
      | true => exact .inl ⟨_, rfl, rfl, rfl, rfl, fun h => nomatch h⟩
      | false => exact .inr ⟨_, rfl, rfl, List.cons_ne_nil _ _⟩

/-- After a piece has entered its group, the block is the one of the size the
    piece announces. -/
theorem enterGroup_cases {g : RecvGroup} (hinv : BlockInv g) (ts tp : Nat) :
    (∃ g', enterGroup g ts tp = .ok g' ∧ g'.totalSize = ts ∧ BlockInv g' ∧
      (Backed g → g'.recvBuf.isSome) ∧ (g.heap = [] → g'.heap = [])) ∨
    ∃ g', enterGroup g ts tp = .error g' ∧ BlockInv g' ∧ g.heap ≠ [] := by
  have hnew : ∀ {g' : RecvGroup}, g'.totalSize = ts →
      g'.recvBuf = some (List.replicate (ts + 1) none) → (g.heap = [] → g'.heap = []) →
      BlockInv g' ∧ (Backed g → g'.recvBuf.isSome) ∧ (g.heap = [] → g'.heap = []) := by
    intro g' hts hbuf hheap
    refine ⟨fun block hb => ?_, fun _ => by rw [hbuf]; rfl, hheap⟩
    rw [hbuf] at hb
    cases hb
    rw [List.length_replicate, hts]
  have hnone : ∀ {g' : RecvGroup}, g'.recvBuf = none → BlockInv g' := by
    intro g' hbuf block hb
    rw [hbuf] at hb
    cases hb
  by_cases h0 : g.totalSize = 0
  · rcases startGroup_cases g ts tp 0 with ⟨g₁, hg, hts, htp, hbuf, hheap⟩ | ⟨g₁, hg, hbuf, hheap⟩
    · refine .inl ⟨{ g₁ with recvPieces := addInt g₁.recvPieces 1 }, ?_, hts, hnew hts hbuf hheap⟩
      simp only [enterGroup, if_pos h0, hg, bind, Except.bind, hts, htp, ne_eq,
        not_true_eq_false, or_self, if_false]
    · exact .inr ⟨g₁, by simp only [enterGroup, if_pos h0, hg, bind, Except.bind], hnone hbuf,
        hheap⟩
  · simp only [enterGroup, if_neg h0, bind, Except.bind]
    split
    · rcases startGroup_cases { g with recvPieces := addInt g.recvPieces 1 } ts tp 1 with
        ⟨g₁, hg, hts, -, hbuf, hheap⟩ | ⟨g₁, hg, hbuf, hheap⟩
      · exact .inl ⟨g₁, hg, hts, hnew hts hbuf hheap⟩
      · exact .inr ⟨g₁, hg, hnone hbuf, hheap⟩
    · next hsame =>
        have hts : ts = g.totalSize := by
          by_contra hne
          exact hsame (.inl hne)
        refine .inl ⟨_, rfl, hts.symm, hinv, fun hb => ?_, id⟩
        rcases hb with hb | hb
        · exact hb
        · exact absurd hb h0

/-- The data of a piece lies in the block of its group. -/
def InBlock (g : RecvGroup) (pIndex : Nat) (data : List UInt8) : Prop :=
  data = [] ∨ pieceFixSize * pIndex + data.length ≤ g.totalSize + 1

/-- A copy inside the block succeeds and keeps its size. -/
theorem copyPiece_inside {g : RecvGroup} (hinv : BlockInv g) (hsome : g.recvBuf.isSome)
    {pIndex : Nat} {data : List UInt8} (hfit : InBlock g pIndex data) :
    ∃ block, copyPiece g pIndex data = .ok { g with recvBuf := some block } ∧
      block.length = g.totalSize + 1 := by
  obtain ⟨block, hblock⟩ := Option.isSome_iff_exists.mp hsome
  have hlen := hinv block hblock
  rcases hfit with rfl | hfit
  · refine ⟨block, ?_, hlen⟩
    simp [copyPiece, hblock, store, splice_nil, bind, Except.bind]
  · have hle : pieceFixSize * pIndex + (data.map some).length ≤ block.length := by
      rw [List.length_map]
      omega
    refine ⟨splice block (pieceFixSize * pIndex) (data.map some), ?_, ?_⟩
    · simp [copyPiece, hblock, store_of_le hle, bind, Except.bind]
    · rw [splice_length hle, hlen]

/-- A copy that leaves the block is a fault, also without a block. -/
theorem copyPiece_outside {g : RecvGroup} (hinv : BlockInv g) {pIndex : Nat} {data : List UInt8}
    (hout : ¬ InBlock g pIndex data) : copyPiece g pIndex data = .error .write := by
  obtain ⟨hne, hlt⟩ := not_or.mp hout
  have hstore : store (g.recvBuf.getD []) (pieceFixSize * pIndex) (data.map some)
      = .error .write := by
    apply if_neg
    rw [not_or, List.length_map]
    refine ⟨fun hnil => hne (List.map_eq_nil_iff.mp hnil), ?_⟩
    cases hbuf : g.recvBuf with
    | none =>
        have := List.length_pos_iff.mpr hne
        rw [Option.getD_none, List.length_nil]
        omega
    | some block =>
        have := hinv block hbuf
        rw [Option.getD_some]
        omega
  simp only [copyPiece, hstore, bind, Except.bind]

theorem finishPiece_frame (g : RecvGroup) (n : Nat) :
    (finishPiece g n).1.totalSize = g.totalSize ∧ (finishPiece g n).1.recvBuf = g.recvBuf ∧
      (finishPiece g n).1.heap = g.heap := by
  simp only [finishPiece]
  split <;> exact ⟨rfl, rfl, rfl⟩

-- ============================================================================
-- Pieces and datagrams
-- ============================================================================

section Walks

variable {g : RecvGroup} (bad : Int → Int)

/-- A piece that fits what it announces is taken, if there is memory. -/
theorem acceptPiece_inside (hinv : BlockInv g) (hback : Backed g) {ts pIndex : Nat}
    {data : List UInt8} (hfit : data = [] ∨ pieceFixSize * pIndex + data.length ≤ ts + 1)
    (tp : Nat) :
    (∃ g' verdict, acceptPiece g ts tp pIndex data = .ok (.taken g' verdict) ∧ BlockInv g' ∧
      Backed g' ∧ (g.heap = [] → g'.heap = [])) ∨
    ∃ g', acceptPiece g ts tp pIndex data = .ok (.noMemory g') ∧ BlockInv g' ∧ g.heap ≠ [] := by
  rcases enterGroup_cases hinv ts tp with ⟨g₁, hg, rfl, hinv₁, hsome, hheap⟩ | ⟨g₁, hg, hrest⟩
  · obtain ⟨block, hcopy, hlen⟩ := copyPiece_inside hinv₁ (hsome hback) hfit
    obtain ⟨hts, hbuf, hheap₂⟩ :=
      finishPiece_frame { g₁ with recvBuf := some block } data.length
    have hacc : acceptPiece g g₁.totalSize tp pIndex data
        = .ok (.taken (finishPiece { g₁ with recvBuf := some block } data.length).1
            (finishPiece { g₁ with recvBuf := some block } data.length).2) := by
      simp only [acceptPiece, hg, hcopy, bind, Except.bind]
    refine .inl ⟨_, _, hacc, ?_, ?_, ?_⟩
    · intro b hb
      rw [hbuf] at hb
      cases hb
      rw [hts, hlen]
    · exact .inl (by rw [hbuf]; rfl)
    · intro h
      rw [hheap₂]
      exact hheap h
  · exact .inr ⟨g₁, by simp only [acceptPiece, hg], hrest⟩

/-- A piece that does not fit is copied across the end of the block. -/
theorem acceptPiece_outside (hinv : BlockInv g) (hheap : g.heap = []) {ts pIndex : Nat}
    {data : List UInt8} (hout : ¬ (data = [] ∨ pieceFixSize * pIndex + data.length ≤ ts + 1))
    (tp : Nat) : acceptPiece g ts tp pIndex data = .error .write := by
  rcases enterGroup_cases hinv ts tp with ⟨g₁, hg, rfl, hinv₁, -, -⟩ | ⟨g₁, hg, -, hne⟩
  · simp only [acceptPiece, hg, copyPiece_outside hinv₁ hout, bind, Except.bind]
  · exact absurd hheap hne

/-- The data of the first piece and the field that counts it. -/
theorem frameAt_inside {bs : List UInt8}
    (hwhole : headSize + wordAt bs headPosPLength ≤ bs.length) :
    (frameAt bs).Inside ↔
      ((bs.drop headSize).take (wordAt bs headPosPLength) = [] ∨
        pieceFixSize * wordAt bs headPosPIndex
            + ((bs.drop headSize).take (wordAt bs headPosPLength)).length
          ≤ wordAt bs headPosTotalSize + 1) := by
  have hlen : ((bs.drop headSize).take (wordAt bs headPosPLength)).length
      = wordAt bs headPosPLength := by
    rw [List.length_take, List.length_drop]
    omega
  rw [← List.length_eq_zero_iff, hlen]
  exact Iff.rfl

/-- Pieces that all fit what they announce are handled without a fault. -/
theorem walk_inside (bs : List UInt8) (code : Int) (hinv : BlockInv g) (hback : Backed g)
    (hall : ∀ f ∈ framesOf bs, f.Inside) :
    ∃ g' rest code', walk bad g bs code = .ok (g', rest, code') ∧ BlockInv g' ∧
      (g.heap = [] → Backed g' ∧ g'.heap = []) := by
  induction bs using framesOf.induct generalizing g code with
  | case1 bs h ih =>
      rw [framesOf_whole h.1 h.2] at hall
      have hfit := (frameAt_inside h.2).mp (hall _ (List.mem_cons_self ..))
      rw [walk_of_whole h.1 h.2]
      rcases acceptPiece_inside hinv hback hfit (wordAt bs headPosTotalPieces) with
        ⟨g₁, verdict, hacc, hinv₁, hback₁, hheap⟩ | ⟨g₁, hacc, hinv₁, hne⟩
      · rw [hacc]
        obtain ⟨g', rest, code', hwalk, hinv', hrest⟩ := ih (codeAfter bad code verdict) hinv₁
          hback₁ (fun f hf => hall f (List.mem_cons_of_mem _ hf))
        exact ⟨g', rest, code', hwalk, hinv', fun h => hrest (hheap h)⟩
      · rw [hacc]
        exact ⟨g₁, bs, -1, rfl, hinv₁, fun h => absurd h hne⟩
  | case2 bs h =>
      refine ⟨g, bs, code, ?_, hinv, fun hheap => ⟨hback, hheap⟩⟩
      rw [walk]
      split
      · rw [if_neg (by omega)]
      · rfl

/-- With memory to spare, a piece that does not fit is reached and copied. -/
theorem walk_outside (bs : List UInt8) (code : Int) (hinv : BlockInv g) (hback : Backed g)
    (hheap : g.heap = []) (hout : ∃ f ∈ framesOf bs, ¬ f.Inside) :
    walk bad g bs code = .error .write := by
  induction bs using framesOf.induct generalizing g code with
  | case1 bs h ih =>
      rw [framesOf_whole h.1 h.2] at hout
      rw [walk_of_whole h.1 h.2]
      by_cases hfit : (frameAt bs).Inside
      · rcases acceptPiece_inside hinv hback ((frameAt_inside h.2).mp hfit)
            (wordAt bs headPosTotalPieces) with
          ⟨g₁, verdict, hacc, hinv₁, hback₁, hheap₁⟩ | ⟨g₁, hacc, hinv₁, hne⟩
        · rw [hacc]
          refine ih _ hinv₁ hback₁ (hheap₁ hheap) ?_
          obtain ⟨f, hf, hno⟩ := hout
          rcases List.mem_cons.mp hf with rfl | hf
          · exact absurd hfit hno
          · exact ⟨f, hf, hno⟩
        · exact absurd hheap hne
      · rw [acceptPiece_outside hinv hheap (fun hc => hfit ((frameAt_inside h.2).mpr hc))]
  | case2 bs h =>
      obtain ⟨f, hf, -⟩ := hout
      rw [framesOf, if_neg h] at hf
      cases hf

end Walks

-- ============================================================================
-- Runs of a receiver
-- ============================================================================

/-- What can happen to a receive handle.  `after` is the memory behind the
    datagram, which the flat sync scan may look into. -/
inductive RecvEvent where
  | merge (datagram after : List UInt8)
  | mergeEx (datagram : List UInt8)
  | reset
  deriving DecidableEq, Repr

/-- One event: the handle and the code of the call. -/
def recvStep (h : UdpPiece) : RecvEvent → Except Fault (UdpPiece × Int)
  | .merge datagram after => udpPieceMerge h (datagram ++ after) datagram.length
  | .mergeEx datagram => udpPieceMergeEx h datagram datagram.length
  | .reset => .ok (udpPieceReset h, 0)

/-- The bytes a call reads pieces from: for the ring what it held and the
    datagram, and nothing when that does not fit. -/
def framedBytes (h : UdpPiece) : RecvEvent → List UInt8
  | .merge datagram _ => skipSync datagram
  | .mergeEx datagram =>
      if (ringContents h.circularBuffer).length + datagram.length ≤ h.circularBuffer.capacity then
        skipSync (ringContents h.circularBuffer ++ datagram)
      else []
  | .reset => []

/-- Every piece of the event fits the size it announces, and no failed `malloc`
    is waiting for a reset. -/
def CopiesInside (h : UdpPiece) (e : RecvEvent) : Prop :=
  ∀ f ∈ framesOf (framedBytes h e), Backed h.toRecvGroup ∧ f.Inside

/-- The invariant of a receive handle. -/
def RecvInv (h : UdpPiece) : Prop :=
  BlockInv h.toRecvGroup ∧ ∃ q, RingInv h.circularBuffer q

theorem walk_copiesInside (bad : Int → Int) {g : RecvGroup} (bs : List UInt8) (code : Int)
    (hinv : BlockInv g) (hall : ∀ f ∈ framesOf bs, Backed g ∧ f.Inside) :
    ∃ g' rest code', walk bad g bs code = .ok (g', rest, code') ∧ BlockInv g' ∧
      (g.heap = [] → Backed g → Backed g' ∧ g'.heap = []) := by
  by_cases hback : Backed g
  · obtain ⟨g', rest, code', hwalk, hinv', hrest⟩ :=
      walk_inside bad bs code hinv hback (fun f hf => (hall f hf).2)
    exact ⟨g', rest, code', hwalk, hinv', fun hheap _ => hrest hheap⟩
  · -- no piece at all, or the condition fails at the first one
    refine ⟨g, bs, code, ?_, hinv, fun _ h => absurd h hback⟩
    rw [walk]
    split
    · rw [if_neg]
      intro hwhole
      exact hback (hall (frameAt bs) (by rw [framesOf_whole ‹_› hwhole]; simp)).1
    · rfl

/-- An event that meets the condition makes no stray copy and keeps the
    invariant; what may go wrong is a read past the datagram or the ring's
    index arithmetic. -/
theorem recvStep_inside {h : UdpPiece} {e : RecvEvent} (hinv : RecvInv h)
    (hall : CopiesInside h e) :
    recvStep h e = .error .read ∨ recvStep h e = .error .overflow ∨
      ∃ h' code, recvStep h e = .ok (h', code) ∧ RecvInv h' ∧
        h'.circularBuffer.capacity = h.circularBuffer.capacity ∧
        (h.heap = [] → Backed h.toRecvGroup → Backed h'.toRecvGroup ∧ h'.heap = []) := by
  obtain ⟨hblock, q, hring⟩ := hinv
  cases e with
  | reset =>
      refine .inr (.inr ⟨udpPieceReset h, 0, rfl, ⟨?_, [], circularBufferReset_spec hring⟩, rfl,
        fun hheap _ => ⟨.inr rfl, hheap⟩⟩)
      intro block hb
      cases hb
  | merge datagram after =>
      have hle : datagram.length ≤ (datagram ++ after).length := by
        rw [List.length_append]
        omega
      rcases udpPieceMerge_cases h hle with ⟨herr, -⟩ | hcall
      · exact .inl herr
      · rw [List.take_left] at hcall
        obtain ⟨g', rest, code, hwalk, hblock', hrest⟩ :=
          walk_copiesInside flatBad (skipSync datagram) 0 hblock hall
        rw [hwalk] at hcall
        exact .inr (.inr ⟨_, code, hcall, ⟨hblock', q, hring⟩, rfl, hrest⟩)
  | mergeEx datagram =>
      rw [CopiesInside, framedBytes, ringContents_eq hring] at hall
      by_cases hfit : q.length + datagram.length ≤ h.circularBuffer.capacity
      · rw [if_pos hfit] at hall
        obtain ⟨g', rest, code, hwalk, hblock', hrest⟩ := walk_copiesInside ringBad _ 0 hblock hall
        rcases udpPieceMergeEx_cases hring hfit with ⟨herr, -⟩ | hcall
        · exact .inr (.inl herr)
        · rw [hwalk] at hcall
          obtain ⟨rb, hrun, hring', hcap, -⟩ := hcall
          exact .inr (.inr ⟨_, code, hrun, ⟨hblock', rest, hring'⟩, hcap, hrest⟩)
      · obtain ⟨rb, q', hrun, hring', hcap⟩ :=
          udpPieceMergeEx_full hring (Nat.lt_of_not_le hfit)
        exact .inr (.inr ⟨_, -1, hrun, ⟨hblock, q', hring'⟩, hcap,
          fun hheap hback => ⟨hback, hheap⟩⟩)

/-- With memory to spare, an event that misses the condition makes a stray
    copy. -/
theorem recvStep_outside {h : UdpPiece} {e : RecvEvent} (hinv : RecvInv h)
    (hback : Backed h.toRecvGroup) (hheap : h.heap = [])
    (hcap : h.circularBuffer.capacity ≤ ringMax) (hno : ¬ CopiesInside h e) :
    recvStep h e = .error .write := by
  obtain ⟨hblock, q, hring⟩ := hinv
  have hout : ∃ f ∈ framesOf (framedBytes h e), ¬ f.Inside := by
    by_contra hall
    refine hno fun f hf => ⟨hback, ?_⟩
    by_contra hf'
    exact hall ⟨f, hf, hf'⟩
  have hnil : ∀ bs, (∃ f ∈ framesOf bs, ¬ f.Inside) → headSize < bs.length := by
    rintro bs ⟨f, hf, -⟩
    by_contra hlen
    rw [framesOf_of_short (by omega)] at hf
    cases hf
  cases e with
  | reset => exact absurd (hnil _ hout) (by simp [framedBytes])
  | merge datagram after =>
      have hle : datagram.length ≤ (datagram ++ after).length := by
        rw [List.length_append]
        omega
      have hlong := hnil _ hout
      rw [framedBytes] at hout hlong
      rcases udpPieceMerge_cases h hle with ⟨-, hshort⟩ | hcall
      · rw [List.take_left] at hshort
        simp only [headSize] at hlong
        omega
      · rw [List.take_left, walk_outside flatBad _ 0 hblock hback hheap hout] at hcall
        exact hcall
  | mergeEx datagram =>
      rw [framedBytes, ringContents_eq hring] at hout
      by_cases hfit : q.length + datagram.length ≤ h.circularBuffer.capacity
      · rw [if_pos hfit] at hout
        have hcall := udpPieceMergeEx_spec hring (headroom_of_le hcap datagram.length) hfit
        rw [walk_outside ringBad _ 0 hblock hback hheap hout] at hcall
        exact hcall
      · rw [if_neg hfit] at hout
        exact absurd (hnil _ hout) (by simp)

theorem recv_safe_of_along {h : UdpPiece} {events : List RecvEvent} (hinv : RecvInv h)
    (hall : Along recvStep CopiesInside h events) :
    runOps recvStep h events ≠ .error .write := by
  refine runOps_ne_error_of_along ?_ ?_ hinv hall
  · intro h e hinv hc herr
    rcases recvStep_inside hinv hc with hx | hx | ⟨h', code, hx, -⟩
    · cases herr.symm.trans hx
    · cases herr.symm.trans hx
    · cases herr.symm.trans hx
  · intro h e h' code hinv hc hok
    rcases recvStep_inside hinv hc with hx | hx | ⟨h₁, code₁, hx, hinv', -⟩
    · cases hok.symm.trans hx
    · cases hok.symm.trans hx
    · cases hok.symm.trans hx
      exact hinv'

/-- A handle of a receiver whose `malloc` never fails. -/
def GrantedInv (h : UdpPiece) : Prop :=
  RecvInv h ∧ Backed h.toRecvGroup ∧ h.heap = [] ∧ h.circularBuffer.capacity ≤ ringMax

theorem recv_along_of_safe {h : UdpPiece} {events : List RecvEvent} (hinv : GrantedInv h)
    (hsafe : runOps recvStep h events ≠ .error .write) :
    Along recvStep CopiesInside h events := by
  refine along_of_runOps_ne_error ?_ ?_ hinv hsafe
  · rintro h e ⟨hinv, hback, hheap, hcap⟩ hno
    exact recvStep_outside hinv hback hheap hcap hno
  · rintro h e h' code ⟨hinv, hback, hheap, hcap⟩ hc hok
    rcases recvStep_inside hinv hc with hx | hx | ⟨h₁, code₁, hx, hinv', hcap', hrest⟩
    · cases hok.symm.trans hx
    · cases hok.symm.trans hx
    · cases hok.symm.trans hx
      obtain ⟨hback', hheap'⟩ := hrest hheap hback
      exact ⟨hinv', hback', hheap', hcap'.symm ▸ hcap⟩

/-- In every run of a fresh receiver whose events all meet `CopiesInside`, no
    copy leaves `recv_buf`; and where `malloc` never fails the condition is
    exact. -/
theorem recv_copies_inside (capacity : Nat) (block : List UInt8) (heap : List Bool)
    (h₀ : UdpPiece) (hpos : 1 ≤ capacity) (hblock : block.length = capacity)
    (hinit : udpPieceInit capacity (some block) heap = some h₀) (events : List RecvEvent) :
    (Along recvStep CopiesInside h₀ events → runOps recvStep h₀ events ≠ .error .write) ∧
      (heap = [] → capacity ≤ ringMax → runOps recvStep h₀ events ≠ .error .write →
        Along recvStep CopiesInside h₀ events) := by
  obtain ⟨hring, hcap⟩ := circularBufferInit_sim hpos hblock rfl
  cases hinit
  have hinv : BlockInv
      { recvPieces := 0, totalSize := 0, totalPieces := 0, recvLen := 0, recvBuf := none, heap } :=
    fun b hb => nomatch hb
  exact ⟨fun h => recv_safe_of_along ⟨hinv, [], hring⟩ h,
    fun hheap hmax h => recv_along_of_safe ⟨⟨hinv, [], hring⟩, .inr rfl, hheap, hmax⟩ h⟩

/-- A whole one-byte frame. -/
def oneByteDatagram : List UInt8 := [0xAF, 0xAE, 0, 1, 0, 1, 0, 0, 0, 1, 0, 0, 7]

/-- The one-byte frame, received by either of the two. -/
theorem recv_copies_inside_oneByte :
    runOps recvStep (zeroedHandle 64) [.mergeEx oneByteDatagram] ≠ .error .write ∧
      runOps recvStep (zeroedHandle 64) [.merge oneByteDatagram []] ≠ .error .write := by
  have hfresh := recv_copies_inside 64 (List.replicate 64 0) [] (zeroedHandle 64) (by omega)
    (by decide) rfl
  have hframes : ∀ f ∈ framesOf oneByteDatagram, Backed (zeroedHandle 64).toRecvGroup ∧ f.Inside := by
    rw [framesOf_whole (by decide) (by decide), framesOf_of_short (by decide)]
    intro f hf
    rw [List.mem_singleton.mp hf]
    exact ⟨.inr rfl, by decide⟩
  exact ⟨(hfresh _).1 ⟨hframes, fun _ _ _ => trivial⟩,
    (hfresh _).1 ⟨hframes, fun _ _ _ => trivial⟩⟩

/-- A piece that announces one byte in all and puts it at index 1. -/
def strayDatagram : List UInt8 := [0xAF, 0xAE, 0, 1, 0, 1, 0, 1, 0, 1, 0, 0, 7]

/-- One hostile datagram on a fresh handle: byte 512 of a two-byte block. -/
theorem recv_stray_copy :
    runOps recvStep (zeroedHandle 64) [.merge strayDatagram []] = .error .write ∧
      runOps recvStep (zeroedHandle 64) [.mergeEx strayDatagram] = .error .write := by
  exact ⟨rfl, rfl⟩

end LinuxCodeDemos.Udp

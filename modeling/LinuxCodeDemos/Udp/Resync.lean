/-
  LinuxCodeDemos.Udp.Resync

  Pieces with garbage between them.

  `udp_piece_merge_ex` looks for the sync word once per call, before the piece loop.
  When a piece of the call is followed by garbage, the loop takes the garbage for a
  header: it stops if the header announces more bytes than there are, and otherwise
  it takes a block that is no piece.  After a stop the pieces behind the garbage wait
  for the next call.  `Resyncs` says with the stream and the chunks alone that no block
  is misread and no piece waits for a call that does not come; it is exactly what is
  needed for the same pieces to be taken as without the garbage (`resync_iff`).
-/

import Mathlib.Data.List.Chain
import LinuxCodeDemos.Udp.Calls

namespace LinuxCodeDemos.Udp

open Lib

-- ============================================================================
-- Noisy streams
-- ============================================================================

/-- No two neighbouring bytes are a sync word. -/
def NoSync (bs : List UInt8) : Prop := bs.IsChain fun a b => ¬ (a = 0xAF ∧ b = 0xAE)

instance (bs : List UInt8) : Decidable (NoSync bs) := inferInstanceAs (Decidable (bs.IsChain _))

/-- A piece and the garbage behind it. -/
structure Seg where
  piece : Piece
  garbage : List UInt8
  noSync : NoSync garbage

def Seg.bytes (s : Seg) : List UInt8 := s.piece.bytes ++ s.garbage

@[simp] theorem Seg.bytes_length (s : Seg) :
    s.bytes.length = s.piece.bytes.length + s.garbage.length := List.length_append

/-- Pieces, each with garbage behind it. -/
def noisy (segs : List Seg) : List UInt8 := segs.flatMap Seg.bytes

@[simp] theorem noisy_nil : noisy [] = [] := rfl

@[simp] theorem noisy_cons (s : Seg) (segs : List Seg) :
    noisy (s :: segs) = s.bytes ++ noisy segs := rfl

/-- The call that brings byte `e` of the stream, counted from 1. -/
def callOf : List (List UInt8) → Nat → Nat
  | [], e => if e = 0 then 0 else 1
  | c :: cs, e => if e = 0 then 0 else callOf cs (e - c.length) + 1

/-- The call in which the piece of `s`, which starts at `pos`, is taken: the one that brings
    its last byte, or the first one from `ready` on. -/
def Seg.turn (chunks : List (List UInt8)) (pos ready : Nat) (s : Seg) : Nat :=
  max ready (callOf chunks (pos + s.piece.bytes.length))

/-- The pieces from position `pos` of the stream on are all taken, the first of them not
    before call `ready`.  Where garbage follows a piece, the loop has to stop in front of what
    has come of it and of the bytes behind it, and the next piece waits for the next call. -/
def Resyncs (chunks : List (List UInt8)) : Nat → Nat → List Seg → Prop
  | _, _, [] => True
  | pos, ready, s :: segs =>
      s.turn chunks pos ready ≤ chunks.length ∧
      (s.garbage ≠ [] → Stops
        ((chunks.take (s.turn chunks pos ready)).flatten.drop (pos + s.piece.bytes.length))) ∧
      Resyncs chunks (pos + s.bytes.length)
        (if s.garbage = [] then s.turn chunks pos ready else s.turn chunks pos ready + 1) segs

instance decidableResyncs (chunks : List (List UInt8)) :
    (pos ready : Nat) → (segs : List Seg) → Decidable (Resyncs chunks pos ready segs)
  | _, _, [] => .isTrue trivial
  | _, _, _ :: segs =>
      @instDecidableAnd _ _ inferInstance
        (@instDecidableAnd _ _ inferInstance (decidableResyncs chunks _ _ segs))

theorem callOf_le_iff {chunks : List (List UInt8)} {k : Nat} (hk : k ≤ chunks.length) (e : Nat) :
    callOf chunks e ≤ k ↔ e ≤ ((chunks.take k).flatten).length := by
  induction chunks generalizing k e with
  | nil =>
      rw [List.length_nil] at hk
      rw [callOf, List.take_nil, List.flatten_nil, List.length_nil]
      split <;> omega
  | cons c cs ih =>
      rw [List.length_cons] at hk
      rw [callOf]
      cases k with
      | zero =>
          rw [List.take_zero, List.flatten_nil, List.length_nil]
          split <;> omega
      | succ k =>
          have hrest := ih (show k ≤ cs.length by omega) (e - c.length)
          rw [List.take_succ_cons, List.flatten_cons, List.length_append]
          split <;> omega

-- ============================================================================
-- The sync scan on garbage
-- ============================================================================

section Scan

variable {g rest : List UInt8}

/-- The scan goes through garbage to the sync word behind it. -/
theorem skipSync_garbage (h : NoSync g) (rest : List UInt8) :
    skipSync (g ++ 0xAF :: 0xAE :: rest) = 0xAF :: 0xAE :: rest := by
  induction g with
  | nil => rw [List.nil_append, skipSync, if_pos ⟨rfl, rfl⟩]
  | cons a g ih =>
      have htail : NoSync g := List.IsChain.tail h
      cases g with
      | nil =>
          rw [List.singleton_append, skipSync, if_neg (by
            rintro ⟨_, hne⟩
            exact absurd hne (by decide))]
          exact ih htail
      | cons b g =>
          rw [List.cons_append, List.cons_append, skipSync,
            if_neg (List.isChain_cons_cons.mp h).1]
          exact ih htail

/-- Of garbage alone the scan leaves the last byte. -/
theorem skipSync_noSync (h : NoSync g) : skipSync g = g.drop (g.length - 1) := by
  induction g with
  | nil => rfl
  | cons a g ih =>
      cases g with
      | nil => rfl
      | cons b g =>
          rw [skipSync, if_neg (List.isChain_cons_cons.mp h).1, ih (List.IsChain.tail h)]
          rfl

/-- The first byte of a sync word does not make one. -/
theorem NoSync.concat (h : NoSync g) : NoSync (g ++ [0xAF]) := by
  apply List.IsChain.append h (List.IsChain.singleton _)
  intro a _ b hb
  rintro ⟨_, hne⟩
  cases hb
  exact absurd hne (by decide)

end Scan

-- ============================================================================
-- The blocks a call takes
-- ============================================================================

/-- What the piece loop takes off the front of these bytes, block by block. -/
def blocks (bs : List UInt8) : List (List UInt8) :=
  if Stops bs then []
  else bs.take (headSize + wordAt bs headPosPLength) ::
    blocks (bs.drop (headSize + wordAt bs headPosPLength))
termination_by bs.length
decreasing_by
  rw [List.length_drop]
  simp only [Stops, headSize] at *
  omega

theorem blocks_of_stops {bs : List UInt8} (h : Stops bs) : blocks bs = [] := by
  rw [blocks, if_pos h]

theorem blocks_of_not_stops {bs : List UInt8} (h : ¬ Stops bs) :
    blocks bs = bs.take (headSize + wordAt bs headPosPLength) ::
      blocks (bs.drop (headSize + wordAt bs headPosPLength)) := by
  rw [blocks, if_neg h]

/-- A whole piece is a block. -/
theorem blocks_stream (ps : List Piece) (rest : List UInt8) :
    blocks (stream ps ++ rest) = ps.map Piece.bytes ++ blocks rest := by
  induction ps with
  | nil => rfl
  | cons p ps ih =>
      have hwhole : ¬ Stops (p.bytes ++ (stream ps ++ rest)) := by
        have hpos := p.data_pos
        rw [Stops, p.wordAt_pLength, List.length_append, p.bytes_length]
        omega
      rw [stream_cons, List.append_assoc, blocks_of_not_stops hwhole, p.wordAt_pLength,
        p.drop_bytes, ← p.bytes_length, List.take_left, ih, List.map_cons, List.cons_append]

/-- With memory for every group, every piece enters one. -/
theorem enterGroup_memory {g : RecvGroup} (hheap : g.heap = []) (ts tp : Nat) :
    ∃ g', enterGroup g ts tp = .ok g' ∧ g'.heap = [] := by
  by_cases h0 : g.totalSize = 0
  · refine ⟨{ groupOf ts tp [] with recvPieces := addInt 0 1 }, ?_, rfl⟩
    simp only [enterGroup, if_pos h0, startGroup_ok hheap, bind, Except.bind, groupOf, ne_eq,
      not_true_eq_false, or_self, if_false]
  · simp only [enterGroup, if_neg h0, bind, Except.bind]
    split
    · exact ⟨_, startGroup_ok hheap ts tp 1, rfl⟩
    · exact ⟨_, rfl, hheap⟩

/-- With memory for every group a piece is taken, and there is memory for the next one. -/
theorem acceptPiece_memory {g : RecvGroup} (hheap : g.heap = []) {ts tp i : Nat}
    {data : List UInt8} {out : Accept} (h : acceptPiece g ts tp i data = .ok out) :
    ∃ g' verdict, out = .taken g' verdict ∧ g'.heap = [] := by
  obtain ⟨g₁, henter, hheap₁⟩ := enterGroup_memory hheap ts tp
  simp only [acceptPiece, henter, copyPiece, bind, Except.bind] at h
  split at h
  · cases h
  · next g₂ hcopy =>
      cases h
      refine ⟨_, _, rfl, ?_⟩
      split at hcopy
      · cases hcopy
      · cases hcopy
        rw [finishPiece]
        split <;> split <;> exact hheap₁

/-- With memory for every group, what the loop leaves is what is behind its blocks. -/
theorem walk_rest {bad : Int → Int} {g g' : RecvGroup} {bs rest : List UInt8} {code code' : Int}
    (hheap : g.heap = []) (h : walk bad g bs code = .ok (g', rest, code')) :
    bs = (blocks bs).flatten ++ rest := by
  induction bs using blocks.induct generalizing g code with
  | case1 bs hstop =>
      rw [walk_of_stops hstop] at h
      cases h
      rw [blocks_of_stops hstop]
      rfl
  | case2 bs hgo ih =>
      have hwhole := hgo
      rw [Stops, not_or, Nat.not_le, Nat.not_lt] at hwhole
      rw [walk_of_whole hwhole.1 hwhole.2] at h
      rw [blocks_of_not_stops hgo, List.flatten_cons, List.append_assoc]
      split at h
      · cases h
      · next g₁ hacc =>
          obtain ⟨_, _, hout, _⟩ := acceptPiece_memory hheap hacc
          cases hout
      · next g₁ verdict hacc =>
          obtain ⟨_, _, hout, hheap₁⟩ := acceptPiece_memory hheap hacc
          cases hout
          rw [← ih hheap₁ h, List.take_append_drop]

/-- The blocks a call of `udp_piece_merge_ex` takes for pieces. -/
def takenBy (h : UdpPiece) (chunk : List UInt8) : List (List UInt8) :=
  blocks (skipSync (ringContents h.circularBuffer ++ chunk))

/-- What a call leaves in the ring is what is behind the blocks it takes. -/
theorem takenBy_rest {h h' : UdpPiece} {chunk q : List UInt8} {code : Int}
    (hinv : RingInv h.circularBuffer q) (hroom : Headroom h.circularBuffer chunk.length)
    (hfit : q.length + chunk.length ≤ h.circularBuffer.capacity) (hheap : h.heap = [])
    (hcall : mergeExCall h chunk = .ok (h', code)) :
    skipSync (q ++ chunk) = (takenBy h chunk).flatten ++ ringContents h'.circularBuffer := by
  have hspec := udpPieceMergeEx_spec hinv hroom hfit
  rw [takenBy, ringContents_eq hinv]
  cases hwalk : walk ringBad h.toRecvGroup (skipSync (q ++ chunk)) 0 with
  | error f =>
      rw [hwalk] at hspec
      rw [mergeExCall, hspec] at hcall
      cases hcall
  | ok out =>
      obtain ⟨g, rest, code'⟩ := out
      rw [hwalk] at hspec
      obtain ⟨rb, hout, hring, -, -⟩ := hspec
      rw [mergeExCall, hout] at hcall
      cases hcall
      rw [ringContents_eq hring]
      exact walk_rest hheap hwalk

/-- The blocks taken over a run of calls. -/
def runTaken : UdpPiece → List (List UInt8) → List (List UInt8)
  | _, [] => []
  | h, chunk :: chunks =>
      takenBy h chunk ++
        match mergeExCall h chunk with
        | .error _ => []
        | .ok (h', _) => runTaken h' chunks

theorem runTaken_cons {h h' : UdpPiece} {chunk : List UInt8} {code : Int}
    (hcall : mergeExCall h chunk = .ok (h', code)) (chunks : List (List UInt8)) :
    runTaken h (chunk :: chunks) = takenBy h chunk ++ runTaken h' chunks := by
  rw [runTaken, hcall]

-- ============================================================================
-- The group after some pieces
-- ============================================================================

/-- The group after these pieces, if there is memory for it. -/
def groupAfter (g : RecvGroup) (ps : List Piece) : RecvGroup :=
  ps.foldl (fun g p => match p.accept g with
    | .ok (.taken g' _) => g'
    | _ => g) g

theorem groupAfter_append (g : RecvGroup) (ps ps' : List Piece) :
    groupAfter g (ps ++ ps') = groupAfter (groupAfter g ps) ps' := List.foldl_append

/-- The group expects pieces of this kind. -/
def Expects (ts tp : Nat) (g : RecvGroup) : Prop := ∃ w, OpenGroup g ts tp w ∧ w.length < tp

/-- A piece that completes the count leaves a group that the next piece replaces. -/
theorem Expects.accept {ts tp : Nat} {g : RecvGroup} (h : Expects ts tp g) {p : Piece}
    (hts : p.totalSize = ts) (htp : p.totalPieces = tp) (hfit : p.Fits) :
    ∃ g' verdict, p.accept g = .ok (.taken g' verdict) ∧ Expects ts tp g' := by
  obtain ⟨w, hopen, hlt⟩ := h
  subst hts htp
  have hacc := accept_open hopen hfit hlt
  by_cases hfull : w.length + 1 = p.totalPieces
  · rw [if_pos hfull] at hacc
    have hpos : 0 < p.totalPieces := by omega
    exact ⟨_, _, hacc, [], openGroup_closed hpos, hpos⟩
  · rw [if_neg hfull] at hacc
    refine ⟨_, _, hacc, w ++ [p], openGroup_append hopen.window rfl rfl hfit, ?_⟩
    rw [List.length_append, List.length_singleton]
    omega

/-- Pieces of one group are all taken. -/
theorem Expects.acceptAll {ts tp : Nat} {ps : List Piece} (hps : WindowOf ts tp ps)
    (bad : Int → Int) : ∀ {g : RecvGroup} (code : Int), Expects ts tp g →
      Expects ts tp (groupAfter g ps) ∧
      ∃ code', acceptAll bad g ps code = .ok (groupAfter g ps, [], code') := by
  induction ps with
  | nil =>
      intro g code h
      exact ⟨h, code, rfl⟩
  | cons p ps ih =>
      intro g code h
      obtain ⟨hts, htp, hfit⟩ := hps p (List.mem_cons_self ..)
      obtain ⟨g', verdict, hacc, hexp⟩ := h.accept hts htp hfit
      have hafter : groupAfter g (p :: ps) = groupAfter g' ps := by
        rw [groupAfter, List.foldl_cons, hacc]
        rfl
      rw [hafter, LinuxCodeDemos.Udp.acceptAll, hacc]
      exact ih (fun q hq => hps q (List.mem_cons_of_mem _ hq)) _ hexp

-- ============================================================================
-- One call
-- ============================================================================

/-- After `k` calls: the ring holds `q`, and what it holds and what is to come is `lead`,
    garbage that the next scan drops, and the pieces of `segs`, which begin at `pos`. -/
structure Waiting (chunks : List (List UInt8)) (k : Nat) (q lead : List UInt8) (segs : List Seg)
    (pos ready : Nat) : Prop where
  noSync : NoSync lead
  split : q ++ (chunks.drop k).flatten = lead ++ noisy segs
  stream : chunks.flatten.drop pos = noisy segs
  pos_le : pos ≤ chunks.flatten.length
  ready_le : ready ≤ k + 1
  /-- The first piece is not taken yet. -/
  due : ∀ s ∈ segs.head?, k < s.turn chunks pos ready

/-- Call `k + 1` on `bs`, with the pieces of `segs` to come: the loop takes the pieces of a
    first part of them and stops, or it goes on with bytes that are no piece. -/
def CallEnds (chunks : List (List UInt8)) (k : Nat) (bs : List UInt8) (segs : List Seg)
    (pos ready : Nat) : Prop :=
  ∃ done later rest, segs = done ++ later ∧ bs = stream (done.map Seg.piece) ++ rest ∧
    ((Stops rest ∧ ∃ lead pos' ready', Waiting chunks (k + 1) rest lead later pos' ready' ∧
        (Resyncs chunks pos ready segs ↔ Resyncs chunks pos' ready' later)) ∨
      (¬ Stops rest ∧ ¬ [0xAF, 0xAE] <+: rest ∧ ¬ Resyncs chunks pos ready segs))

section Call

variable {chunks : List (List UInt8)} {k pos ready : Nat} {s : Seg} {segs : List Seg}

/-- A piece whose last byte has not come is not taken. -/
theorem Seg.lt_turn (hk : k ≤ chunks.length)
    (hlen : (chunks.take k).flatten.length < pos + s.piece.bytes.length) :
    k < s.turn chunks pos ready := by
  have hcall := callOf_le_iff hk (pos + s.piece.bytes.length)
  rw [Seg.turn]
  omega

/-- A piece that is whole and may be taken is taken. -/
theorem Seg.turn_eq (hk : k < chunks.length) (hready : ready ≤ k + 1)
    (hdue : k < s.turn chunks pos ready)
    (hlen : pos + s.piece.bytes.length ≤ (chunks.take (k + 1)).flatten.length) :
    s.turn chunks pos ready = k + 1 := by
  have hcall := (callOf_le_iff hk (pos + s.piece.bytes.length)).mpr hlen
  rw [Seg.turn] at *
  omega

/-- Garbage and the piece behind it do not begin with a sync word. -/
theorem not_sync_garbage {rest : List UInt8} {g : List UInt8} (hsync : NoSync g) (hne : g ≠ [])
    (hrest : rest <+: g ++ noisy segs) : ¬ [0xAF, 0xAE] <+: rest := by
  intro hstart
  have hpre := hstart.trans hrest
  match g, hne with
  | [a], _ =>
      cases segs with
      | nil =>
          have hshort := hpre.length_le
          simp at hshort
      | cons s segs =>
          have hsecond : (0xAE : UInt8) = 0xAF :=
            (List.cons_prefix_cons.mp (List.cons_prefix_cons.mp hpre).2).1
          exact absurd hsecond (by decide)
  | a :: b :: g, _ =>
      obtain ⟨ha, hpre⟩ := List.cons_prefix_cons.mp hpre
      obtain ⟨hb, -⟩ := List.cons_prefix_cons.mp hpre
      exact (List.isChain_cons_cons.mp hsync).1 ⟨ha.symm, hb.symm⟩

/-- A whole piece with the next one right behind it: the loop takes it and goes on. -/
theorem CallEnds.cons {bs : List UInt8} (hk : k < chunks.length)
    (hturn : s.turn chunks pos ready = k + 1) (hg : s.garbage = [])
    (h : CallEnds chunks k bs segs (pos + s.bytes.length) (k + 1)) :
    CallEnds chunks k (s.piece.bytes ++ bs) (s :: segs) pos ready := by
  obtain ⟨done, later, rest, hsegs, hdone, hend⟩ := h
  have hiff : Resyncs chunks pos ready (s :: segs) ↔
      Resyncs chunks (pos + s.bytes.length) (k + 1) segs := by
    rw [Resyncs, hturn, if_pos hg]
    exact ⟨fun h => h.2.2, fun h => ⟨hk, fun hne => absurd hg hne, h⟩⟩
  refine ⟨s :: done, later, rest, by rw [hsegs, List.cons_append], ?_, ?_⟩
  · rw [List.map_cons, stream_cons, List.append_assoc, ← hdone]
  · rw [hiff]
    exact hend

/-- A whole piece with garbage behind it: the loop takes it and goes on with the garbage. -/
theorem callEnds_garbage {bs : List UInt8} (hk : k < chunks.length)
    (hturn : s.turn chunks pos ready = k + 1) (hg : s.garbage ≠ [])
    (hbs : (chunks.take (k + 1)).flatten.drop (pos + s.piece.bytes.length) = bs)
    (hsplit : bs ++ (chunks.drop (k + 1)).flatten = s.garbage ++ noisy segs)
    (hstream : chunks.flatten.drop (pos + s.bytes.length) = noisy segs)
    (hpos : pos + s.bytes.length ≤ chunks.flatten.length) :
    CallEnds chunks k (s.piece.bytes ++ bs) (s :: segs) pos ready := by
  refine ⟨[s], segs, bs, rfl,
    by rw [List.map_singleton, stream_cons, stream_nil, List.append_nil], ?_⟩
  by_cases hstop : Stops bs
  · refine .inl ⟨hstop, s.garbage, pos + s.bytes.length, k + 2, ?_, ?_⟩
    · exact ⟨s.noSync, hsplit, hstream, hpos, Nat.le_refl _, fun t _ => by rw [Seg.turn]; omega⟩
    · rw [Resyncs, hturn, if_neg hg, hbs]
      exact ⟨fun h => h.2.2, fun h => ⟨hk, fun _ => hstop, h⟩⟩
  · refine .inr ⟨hstop, not_sync_garbage s.noSync hg ⟨_, hsplit⟩, ?_⟩
    rw [Resyncs, hturn, hbs]
    exact fun h => hstop (h.2.1 hg)

/-- A piece that is not whole yet: the loop waits for the rest of it. -/
theorem callEnds_pending {bs : List UInt8} (hk : k < chunks.length) (hready : ready ≤ k + 1)
    (hsplit : bs ++ (chunks.drop (k + 1)).flatten = noisy (s :: segs))
    (hstream : chunks.flatten.drop pos = noisy (s :: segs)) (hpos : pos ≤ chunks.flatten.length)
    (hlen : bs.length < s.piece.bytes.length)
    (hlate : (chunks.take (k + 1)).flatten.length < pos + s.piece.bytes.length) :
    CallEnds chunks k bs (s :: segs) pos ready := by
  have hpiece : s.piece.bytes <+: noisy (s :: segs) := by
    rw [noisy_cons, Seg.bytes, List.append_assoc]
    exact List.prefix_append ..
  have hpend : Pending bs [s.piece] :=
    ⟨List.prefix_of_prefix_length_le ⟨_, hsplit⟩ hpiece (by omega), hlen⟩
  refine ⟨[], s :: segs, bs, rfl, rfl, .inl ⟨hpend.stops, [], pos, ready, ?_, Iff.rfl⟩⟩
  refine ⟨List.IsChain.nil, hsplit, hstream, hpos, by omega, fun t ht => ?_⟩
  cases ht
  exact Seg.lt_turn hk hlate

/-- The piece loop on what has come of the stream behind `pos`. -/
theorem callEnds_pieces (hk : k < chunks.length) (hstream : chunks.flatten.drop pos = noisy segs)
    (hpos : pos ≤ (chunks.take (k + 1)).flatten.length) (hready : ready ≤ k + 1)
    (hdue : ∀ s ∈ segs.head?, k < s.turn chunks pos ready) :
    CallEnds chunks k ((chunks.take (k + 1)).flatten.drop pos) segs pos ready := by
  have hall : (chunks.take (k + 1)).flatten ++ (chunks.drop (k + 1)).flatten = chunks.flatten := by
    rw [← List.flatten_append, List.take_append_drop]
  have hlens := congrArg List.length hall
  rw [List.length_append] at hlens
  induction segs generalizing pos ready with
  | nil =>
      have hsplit := hstream
      rw [← hall, List.drop_append_of_le_length hpos] at hsplit
      obtain ⟨hnow, hlater⟩ := List.append_eq_nil_iff.mp hsplit
      refine ⟨[], [], [], rfl, hnow, .inl ⟨.inl (Nat.zero_le _), [], pos, ready, ?_, Iff.rfl⟩⟩
      exact ⟨List.IsChain.nil, hlater, hstream, by omega, by omega, by simp⟩
  | cons s segs ih =>
      have hsplit := hstream
      rw [← hall, List.drop_append_of_le_length hpos] at hsplit
      by_cases hlen : pos + s.piece.bytes.length ≤ (chunks.take (k + 1)).flatten.length
      · have hturn := Seg.turn_eq hk hready (hdue s rfl) hlen
        have hbs : (chunks.take (k + 1)).flatten.drop pos =
            s.piece.bytes ++ (chunks.take (k + 1)).flatten.drop (pos + s.piece.bytes.length) := by
          obtain ⟨rest, hrest⟩ : s.piece.bytes <+: (chunks.take (k + 1)).flatten.drop pos := by
            rw [noisy_cons, Seg.bytes, List.append_assoc] at hsplit
            exact List.prefix_of_prefix_length_le ⟨_, rfl⟩ ⟨_, hsplit⟩
              (by rw [List.length_drop]; omega)
          rw [← List.drop_drop, ← hrest, List.drop_left]
        have hnext : chunks.flatten.drop (pos + s.bytes.length) = noisy segs := by
          rw [← List.drop_drop, hstream, noisy_cons, List.drop_left]
        rw [hbs]
        by_cases hg : s.garbage = []
        · have hsize : s.bytes.length = s.piece.bytes.length := by
            rw [s.bytes_length, hg, List.length_nil, Nat.add_zero]
          refine CallEnds.cons hk hturn hg ?_
          rw [← hsize]
          exact ih hnext (by rw [hsize]; exact hlen) (Nat.le_refl (k + 1))
            fun t _ => by rw [Seg.turn]; omega
        · rw [hbs, noisy_cons, Seg.bytes, List.append_assoc, List.append_assoc] at hsplit
          refine callEnds_garbage hk hturn hg rfl (List.append_cancel_left hsplit) hnext ?_
          have hlens' := congrArg List.length hstream
          rw [List.length_drop, noisy_cons, List.length_append] at hlens'
          omega
      · refine callEnds_pending hk hready hsplit hstream (by omega) ?_ (by omega)
        rw [List.length_drop]
        omega

/-- The scan drops garbage in front of what has come of a piece. -/
theorem skipSync_lead {lead bs later : List UInt8} (hlead : NoSync lead) (hne : bs ≠ [])
    (h : bs ++ later = noisy segs) : skipSync (lead ++ bs) = bs := by
  cases segs with
  | nil => exact absurd (List.append_eq_nil_iff.mp h).1 hne
  | cons s segs =>
      have hpre : bs <+: 0xAF :: 0xAE :: (noisy (s :: segs)).drop 2 := ⟨later, h⟩
      match bs, hne with
      | [a], _ =>
          obtain ⟨rfl, -⟩ := List.cons_prefix_cons.mp hpre
          rw [skipSync_noSync hlead.concat, List.length_append, List.length_singleton,
            Nat.add_sub_cancel, List.drop_left]
      | a :: b :: bs, _ =>
          obtain ⟨rfl, hpre'⟩ := List.cons_prefix_cons.mp hpre
          obtain ⟨rfl, -⟩ := List.cons_prefix_cons.mp hpre'
          exact skipSync_garbage hlead bs

/-- One call, from the scan on. -/
theorem Waiting.call {q lead : List UInt8} (h : Waiting chunks k q lead segs pos ready)
    (hk : k < chunks.length) : CallEnds chunks k (skipSync (q ++ chunks[k])) segs pos ready := by
  have hsplit := h.split
  rw [List.drop_eq_getElem_cons hk, List.flatten_cons, ← List.append_assoc] at hsplit
  have hall : (chunks.take (k + 1)).flatten ++ (chunks.drop (k + 1)).flatten = chunks.flatten := by
    rw [← List.flatten_append, List.take_append_drop]
  have hstream := h.stream
  have hlens := congrArg List.length hsplit
  have hlens' := congrArg List.length hall
  have hlens'' := congrArg List.length hstream
  have hpos := h.pos_le
  have hready := h.ready_le
  generalize q ++ chunks[k] = bs at hsplit hlens ⊢
  rw [List.length_append, List.length_append] at hlens
  rw [List.length_append] at hlens'
  rw [List.length_drop] at hlens''
  by_cases hlen : bs.length ≤ lead.length
  · -- garbage only: one byte of it stays
    have hbs : bs <+: lead := List.prefix_of_prefix_length_le ⟨_, hsplit⟩ ⟨_, rfl⟩ hlen
    have hclean : NoSync bs := by
      rw [List.prefix_iff_eq_take.mp hbs]
      exact List.IsChain.take h.noSync _
    rw [skipSync_noSync hclean]
    refine ⟨[], segs, _, rfl, rfl, .inl ⟨.inl ?_, lead.drop (bs.length - 1), pos, ready, ?_,
      Iff.rfl⟩⟩
    · rw [List.length_drop, headSize]
      omega
    · refine ⟨List.IsChain.drop h.noSync _, ?_, hstream, hpos, by omega, fun s hs => ?_⟩
      · rw [← List.drop_append_of_le_length (by omega), hsplit,
          List.drop_append_of_le_length (by omega)]
      · have hpiece := s.piece.bytes_length
        have hdata := s.piece.data_pos
        exact Seg.lt_turn hk (by omega)
  · obtain ⟨bs', rfl⟩ : lead <+: bs :=
      List.prefix_of_prefix_length_le ⟨_, rfl⟩ ⟨_, hsplit⟩ (by omega)
    rw [List.length_append] at hlens hlen
    rw [List.append_assoc] at hsplit
    have hcome := List.append_cancel_left hsplit
    have hnow : (chunks.take (k + 1)).flatten.drop pos = bs' := by
      rw [← hall, List.drop_append_of_le_length (by omega), ← hcome] at hstream
      exact (List.append_inj' hstream rfl).1
    have hne : bs' ≠ [] := by
      intro hnil
      rw [hnil, List.length_nil] at hlen
      omega
    rw [skipSync_lead h.noSync hne hcome, ← hnow]
    exact callEnds_pieces hk h.stream (by omega) hready h.due

end Call

-- ============================================================================
-- All calls
-- ============================================================================

/-- The chunk fits the free space of the ring. -/
def FitsRing (h : UdpPiece) (chunk : List UInt8) : Prop :=
  circularBufferSize h.circularBuffer + chunk.length ≤ h.circularBuffer.capacity

instance (h : UdpPiece) (chunk : List UInt8) : Decidable (FitsRing h chunk) :=
  inferInstanceAs (Decidable (_ ≤ _))

/-- A receiver of pieces of one group: its ring holds `q`, and the index sums of its header
    reads stay in `int` over the chunks to come. -/
structure Receiver (ts tp : Nat) (h : UdpPiece) (q : List UInt8) (chunks : List (List UInt8)) :
    Prop where
  ring : RingInv h.circularBuffer q
  group : Expects ts tp h.toRecvGroup
  room : min (h.circularBuffer.begIndex + q.length + chunks.flatten.length)
    h.circularBuffer.capacity + headSize ≤ intMax

section Receiving

variable {ts tp : Nat} {h : UdpPiece} {q chunk rest : List UInt8} {chunks : List (List UInt8)}
  {ps : List Piece}

/-- A call that stops behind some pieces. -/
theorem Receiver.call (hr : Receiver ts tp h q (chunk :: chunks)) (hfit : FitsRing h chunk)
    (hps : WindowOf ts tp ps) (hbs : skipSync (q ++ chunk) = stream ps ++ rest)
    (hstop : Stops rest) :
    ∃ h' code, mergeExCall h chunk = .ok (h', code) ∧ Receiver ts tp h' rest chunks ∧
      h'.toRecvGroup = groupAfter h.toRecvGroup ps := by
  have hroom := hr.room
  have hsize := hr.ring.size
  rw [List.flatten_cons, List.length_append] at hroom
  rw [FitsRing, circularBufferSize, hsize] at hfit
  have hspec := udpPieceMergeEx_spec hr.ring
    (show Headroom h.circularBuffer chunk.length by rw [Headroom]; omega) hfit
  obtain ⟨hexp, code, hacc⟩ := Expects.acceptAll hps ringBad 0 hr.group
  rw [hbs, walk_stream ringBad hstop, hacc] at hspec
  obtain ⟨rb, hcall, hring, hcap, hreach⟩ := hspec
  rw [stream_nil, List.nil_append] at hring hreach
  refine ⟨_, code, hcall, ⟨hring, hexp, ?_⟩, rfl⟩
  show min (rb.begIndex + _ + _) rb.capacity + _ ≤ _
  rw [hcap]
  omega

theorem Receiver.takenBy_eq (hr : Receiver ts tp h q chunks)
    (hbs : skipSync (q ++ chunk) = stream ps ++ rest) :
    takenBy h chunk = ps.map Piece.bytes ++ blocks rest := by
  rw [takenBy, ringContents_eq hr.ring, hbs, blocks_stream]

/-- A block that does not begin with a sync word is no piece. -/
theorem misread_ne {n : Nat} {more : List (List UInt8)} (hno : ¬ [0xAF, 0xAE] <+: rest)
    (later : List Piece) : rest.take n :: more ≠ later.map Piece.bytes := by
  cases later with
  | nil => exact List.cons_ne_nil _ _
  | cons p later =>
      intro heq
      have hblock : rest.take n = p.bytes := (List.cons.inj heq).1
      have hsync : [0xAF, 0xAE] <+: p.bytes := ⟨p.bytes.drop 2, rfl⟩
      rw [← hblock] at hsync
      exact hno (hsync.trans (List.take_prefix n rest))

/-- The pieces are taken, all of them and nothing else, exactly if the chunks allow it; and
    then nothing of the garbage shows in the group. -/
theorem Receiver.run {all : List (List UInt8)} :
    ∀ {k : Nat} {h : UdpPiece} {q lead : List UInt8} {segs : List Seg} {pos ready : Nat},
      k ≤ all.length → all.drop k = chunks → Waiting all k q lead segs pos ready →
      Receiver ts tp h q chunks → WindowOf ts tp (segs.map Seg.piece) →
      Along mergeExCall FitsRing h chunks →
      (Resyncs all pos ready segs →
        ∃ h' codes, runOps mergeExCall h chunks = .ok (h', codes) ∧
          h'.toRecvGroup = groupAfter h.toRecvGroup (segs.map Seg.piece)) ∧
      (runTaken h chunks = (segs.map Seg.piece).map Piece.bytes ↔ Resyncs all pos ready segs) := by
  induction chunks with
  | nil =>
      intro k h q lead segs pos ready hk hdrop hw hr hps _
      have hkeq : all.length ≤ k := List.drop_eq_nil_iff.mp hdrop
      cases segs with
      | nil => exact ⟨fun _ => ⟨h, [], rfl, rfl⟩, fun _ => trivial, fun _ => rfl⟩
      | cons s segs =>
          -- no call is left for the next piece
          have hno : ¬ Resyncs all pos ready (s :: segs) := by
            intro hre
            have hdue := hw.due s rfl
            have hturn := hre.1
            omega
          refine ⟨fun hre => absurd hre hno, fun htaken => ?_, fun hre => absurd hre hno⟩
          rw [runTaken, List.map_cons, List.map_cons] at htaken
          cases htaken
  | cons chunk chunks ih =>
      intro k h q lead segs pos ready hk hdrop hw hr hps halong
      obtain ⟨hfit, halong⟩ := halong
      have hlt : k < all.length := by
        by_contra hge
        rw [List.drop_eq_nil_of_le (by omega)] at hdrop
        cases hdrop
      have hchunk : all[k] = chunk ∧ all.drop (k + 1) = chunks := by
        rw [List.drop_eq_getElem_cons hlt] at hdrop
        exact List.cons.inj hdrop
      have hcall := hw.call hlt
      rw [hchunk.1] at hcall
      obtain ⟨done, later, rest, rfl, hbs, hend⟩ := hcall
      rw [List.map_append] at hps ⊢
      have hdone : WindowOf ts tp (done.map Seg.piece) :=
        fun p hp => hps p (List.mem_append_left _ hp)
      have htaken := hr.takenBy_eq hbs
      rcases hend with ⟨hstop, lead', pos', ready', hw', hiff⟩ | ⟨hgo, hno, hnot⟩
      · obtain ⟨h', code, hcall, hr', hgroup⟩ := hr.call hfit hdone hbs hstop
        obtain ⟨hrun, htakes⟩ := ih hlt hchunk.2 hw' hr'
          (fun p hp => hps p (List.mem_append_right _ hp)) (halong h' code hcall)
        rw [blocks_of_stops hstop, List.append_nil] at htaken
        rw [hiff, groupAfter_append, ← hgroup, runTaken_cons hcall, htaken, List.map_append,
          List.append_cancel_left_eq]
        refine ⟨fun hre => ?_, htakes⟩
        obtain ⟨h'', codes, hruns, hgroup'⟩ := hrun hre
        exact ⟨h'', _, runOps_cons hcall hruns, hgroup'⟩
      · -- a block of garbage is taken
        refine ⟨fun hre => absurd hre hnot, fun heq => ?_, fun hre => absurd hre hnot⟩
        rw [runTaken, htaken, blocks_of_not_stops hgo, List.append_assoc, List.cons_append,
          List.map_append, List.append_cancel_left_eq] at heq
        exact absurd heq (misread_ne hno _)

end Receiving

/-- A piece without garbage behind it. -/
def Seg.clean (p : Piece) : Seg where
  piece := p
  garbage := []
  noSync := List.IsChain.nil

theorem noisy_clean (ps : List Piece) : noisy (ps.map Seg.clean) = stream ps := by
  induction ps with
  | nil => rfl
  | cons p ps ih =>
      rw [List.map_cons, noisy_cons, ih, stream_cons]
      exact congrArg (· ++ stream ps) (List.append_nil p.bytes)

/-- Without garbage every piece is taken in the call that brings its last byte. -/
theorem resyncs_clean {chunks : List (List UInt8)} {pos ready : Nat} {ps : List Piece}
    (hle : pos + (stream ps).length ≤ chunks.flatten.length) (hready : ready ≤ chunks.length) :
    Resyncs chunks pos ready (ps.map Seg.clean) := by
  induction ps generalizing pos ready with
  | nil => trivial
  | cons p ps ih =>
      rw [stream_cons, List.length_append] at hle
      have hturn : (Seg.clean p).turn chunks pos ready ≤ chunks.length := by
        have hcall := (callOf_le_iff (Nat.le_refl chunks.length) (pos + p.bytes.length)).mpr
          (by rw [List.take_length]; omega)
        exact Nat.max_le.mpr ⟨hready, hcall⟩
      refine ⟨hturn, fun hne => absurd rfl hne, ih ?_ hturn⟩
      show pos + (p.bytes ++ []).length + _ ≤ _
      rw [List.append_nil]
      omega

theorem stream_length_le (segs : List Seg) :
    (stream (segs.map Seg.piece)).length ≤ (noisy segs).length := by
  induction segs with
  | nil => exact Nat.le_refl 0
  | cons s segs ih =>
      rw [List.map_cons, stream_cons, noisy_cons, List.length_append, List.length_append,
        s.bytes_length]
      omega

/-- Two feeds of a receiver end without a fault, take the same pieces and leave the same
    `recv_buf`, `recv_len` and `recv_pieces`. -/
def SameResult (h : UdpPiece) (chunks clean : List (List UInt8)) : Prop :=
  ∃ h₁ h₂ codes₁ codes₂, runOps mergeExCall h chunks = .ok (h₁, codes₁) ∧
    runOps mergeExCall h clean = .ok (h₂, codes₂) ∧
    runTaken h chunks = runTaken h clean ∧
    h₁.recvBuf = h₂.recvBuf ∧ h₁.recvLen = h₂.recvLen ∧ h₁.recvPieces = h₂.recvPieces

section Feeds

variable {rcv : UdpPiece} {q lead : List UInt8} {ts tp : Nat} {segs : List Seg}
  {chunks clean : List (List UInt8)}

/-- A feed of a freshly reset receiver. -/
theorem feed_run (hmalloc : rcv.heap = []) (hring : RingInv rcv.circularBuffer q) (htp : 0 < tp)
    (hlead : NoSync lead) (hps : WindowOf ts tp (segs.map Seg.piece))
    (hchunks : chunks.flatten = lead ++ noisy segs)
    (hfit : Along mergeExCall FitsRing (udpPieceReset rcv) chunks)
    (hroom : min chunks.flatten.length rcv.circularBuffer.capacity + headSize ≤ intMax) :
    (Resyncs chunks lead.length 0 segs →
      ∃ h' codes, runOps mergeExCall (udpPieceReset rcv) chunks = .ok (h', codes) ∧
        h'.toRecvGroup = groupAfter (udpPieceReset rcv).toRecvGroup (segs.map Seg.piece)) ∧
    (runTaken (udpPieceReset rcv) chunks = (segs.map Seg.piece).map Piece.bytes ↔
      Resyncs chunks lead.length 0 segs) := by
  have hwait : Waiting chunks 0 [] lead segs lead.length 0 := by
    refine ⟨hlead, hchunks, by rw [hchunks, List.drop_left], ?_, Nat.zero_le _, fun s _ => ?_⟩
    · rw [hchunks, List.length_append]
      omega
    · have hpiece := s.piece.bytes_length
      have hdata := s.piece.data_pos
      refine Seg.lt_turn (Nat.zero_le _) ?_
      show 0 < _
      omega
  have hrecv : Receiver ts tp (udpPieceReset rcv) [] chunks := by
    refine ⟨circularBufferReset_spec hring, ⟨[], openGroup_reset hmalloc ts tp, htp⟩, ?_⟩
    show min (0 + 0 + _) rcv.circularBuffer.capacity + _ ≤ _
    omega
  exact hrecv.run (Nat.zero_le _) rfl hwait hps hfit

/-- A feed of the pieces alone. -/
theorem clean_run (hmalloc : rcv.heap = []) (hring : RingInv rcv.circularBuffer q) (htp : 0 < tp)
    {ps : List Piece} (hps : WindowOf ts tp ps) (hclean : clean.flatten = stream ps)
    (hfit : Along mergeExCall FitsRing (udpPieceReset rcv) clean)
    (hroom : min clean.flatten.length rcv.circularBuffer.capacity + headSize ≤ intMax) :
    runTaken (udpPieceReset rcv) clean = ps.map Piece.bytes ∧
    ∃ h' codes, runOps mergeExCall (udpPieceReset rcv) clean = .ok (h', codes) ∧
      h'.toRecvGroup = groupAfter (udpPieceReset rcv).toRecvGroup ps := by
  have hpieces : (ps.map Seg.clean).map Seg.piece = ps := by
    rw [List.map_map]
    exact List.map_id ps
  have hre : Resyncs clean ([] : List UInt8).length 0 (ps.map Seg.clean) :=
    resyncs_clean (by rw [hclean, List.length_nil, Nat.zero_add]) (Nat.zero_le _)
  have hfeed := feed_run hmalloc hring htp List.IsChain.nil (by rw [hpieces]; exact hps)
    (by rw [noisy_clean, hclean, List.nil_append]) hfit hroom
  rw [hpieces] at hfeed
  exact ⟨hfeed.2.mpr hre, hfeed.1 hre⟩

end Feeds

/-- Pieces of one group with garbage around them, in chunks that fit the ring: the receiver
    takes the same pieces and ends with the same group as without the garbage exactly if the
    loop stops in front of the garbage of every call and a call is left for every piece. -/
theorem resync_iff (rcv : UdpPiece) (q : List UInt8) (hmalloc : rcv.heap = [])
    (hring : RingInv rcv.circularBuffer q) {ts tp : Nat} (htp : 0 < tp) {lead : List UInt8}
    {segs : List Seg} {chunks clean : List (List UInt8)} (hlead : NoSync lead)
    (hps : WindowOf ts tp (segs.map Seg.piece)) (hchunks : chunks.flatten = lead ++ noisy segs)
    (hclean : clean.flatten = stream (segs.map Seg.piece))
    (hfit : Along mergeExCall FitsRing (udpPieceReset rcv) chunks)
    (hfit' : Along mergeExCall FitsRing (udpPieceReset rcv) clean)
    (hroom : min chunks.flatten.length rcv.circularBuffer.capacity + headSize ≤ intMax) :
    SameResult (udpPieceReset rcv) chunks clean ↔ Resyncs chunks lead.length 0 segs := by
  have hle : clean.flatten.length ≤ chunks.flatten.length := by
    rw [hclean, hchunks, List.length_append]
    have hpieces := stream_length_le segs
    omega
  obtain ⟨hrun, htaken⟩ := feed_run hmalloc hring htp hlead hps hchunks hfit hroom
  obtain ⟨htaken', h₂, codes₂, hrun₂, hg₂⟩ :=
    clean_run hmalloc hring htp hps hclean hfit' (by omega)
  refine ⟨?_, ?_⟩
  · rintro ⟨_, _, _, _, _, _, hsame, _⟩
    exact htaken.mp (hsame.trans htaken')
  · intro hre
    obtain ⟨h₁, codes₁, hrun₁, hg₁⟩ := hrun hre
    have hgroup : h₁.toRecvGroup = h₂.toRecvGroup := hg₁.trans hg₂.symm
    exact ⟨h₁, h₂, codes₁, codes₂, hrun₁, hrun₂, (htaken.mpr hre).trans htaken'.symm,
      by rw [hgroup], by rw [hgroup], by rw [hgroup]⟩

theorem pair_lt : 2 < 2 ^ 16 := by omega

/-- A piece of a group of two bytes. -/
def pairPiece (b : UInt8) : Piece where
  totalSize := 2
  totalPieces := 2
  pIndex := 0
  spare := (0, 0)
  data := [b]
  totalSize_lt := pair_lt
  totalPieces_lt := pair_lt
  pIndex_lt := Nat.two_pow_pos 16
  data_lt := by rw [List.length_singleton]; decide
  data_pos := by rw [List.length_singleton]; decide

/-- Garbage before the first piece and three bytes of it at the end of the first chunk. -/
theorem resync_short_garbage :
    SameResult (udpPieceReset (zeroedHandle 64))
      [[0x55] ++ (pairPiece 1).bytes ++ [0, 0, 0], (pairPiece 2).bytes]
      [(pairPiece 1).bytes, (pairPiece 2).bytes] :=
  (resync_iff (zeroedHandle 64) [] rfl (emptyRing_zeroed (by decide)).1 (show 0 < 2 by decide)
    (show NoSync [0x55] from List.IsChain.singleton _)
    (show WindowOf 2 2 ([⟨pairPiece 1, [0, 0, 0], by decide⟩, Seg.clean (pairPiece 2)].map
      Seg.piece) by
        intro p hp
        rcases List.mem_pair.mp hp with rfl | rfl
        all_goals exact ⟨rfl, rfl, show 512 * 0 + 1 ≤ 2 by decide⟩)
    (by decide) (by decide) (by decide) (by decide) (by decide)).mpr (by decide)

/-- A piece with twelve zero bytes behind it. -/
def Seg.zeros (p : Piece) : Seg where
  piece := p
  garbage := List.replicate 12 0
  noSync := by decide

/-- A piece that the only chunk brings. -/
theorem Seg.turn_single {bs : List UInt8} {s : Seg} (h : s.piece.bytes.length ≤ bs.length) :
    s.turn [bs] 0 0 = 1 := by
  have hpiece := s.piece.bytes_length
  have hdata := s.piece.data_pos
  rw [Seg.turn, callOf, if_neg (by omega), callOf, if_pos (by omega)]
  rfl

/-- In one chunk the zero bytes are the header of a piece without data. -/
theorem zeros_not_resyncs (p p' : Piece) :
    ¬ Resyncs [noisy [Seg.zeros p, Seg.clean p']] 0 0 [Seg.zeros p, Seg.clean p'] := by
  have hbs : noisy [Seg.zeros p, Seg.clean p'] =
      p.bytes ++ (List.replicate 12 0 ++ p'.bytes) := by
    rw [noisy_cons, noisy_cons, noisy_nil, List.append_nil, Seg.bytes, Seg.bytes, List.append_assoc]
    exact congrArg (fun bs => p.bytes ++ (List.replicate 12 0 ++ bs)) (List.append_nil p'.bytes)
  have hturn : (Seg.zeros p).turn [p.bytes ++ (List.replicate 12 0 ++ p'.bytes)] 0 0 = 1 :=
    Seg.turn_single (by rw [List.length_append]; exact Nat.le_add_right ..)
  rw [hbs]
  rintro ⟨-, hstop, -⟩
  have hstop := hstop (List.cons_ne_nil _ _)
  have hdata := p'.data_pos
  have hrest : ((([p.bytes ++ (List.replicate 12 0 ++ p'.bytes)].take 1).flatten).drop
      (0 + (Seg.zeros p).piece.bytes.length)) = List.replicate 12 0 ++ p'.bytes := by
    rw [List.take_of_length_le (Nat.le_refl 1), List.flatten_singleton, Nat.zero_add]
    exact List.drop_left
  have hword : wordAt (List.replicate 12 0 ++ p'.bytes) headPosPLength = 0 := rfl
  rw [hturn, hrest, Stops, hword, List.length_append, List.length_replicate, p'.bytes_length,
    headSize] at hstop
  omega

/-- A single chunk fits the empty ring if it is not longer than it. -/
theorem along_fitsRing_single {h : UdpPiece} {chunk : List UInt8}
    (hle : chunk.length ≤ h.circularBuffer.capacity) :
    Along mergeExCall FitsRing (udpPieceReset h) [chunk] := by
  refine ⟨?_, fun _ _ _ => trivial⟩
  show 0 + chunk.length ≤ h.circularBuffer.capacity
  omega

/-- The two pieces of a payload, in one chunk with twelve zero bytes between them, and the
    same without these. -/
theorem resync_zero_garbage :
    ∃ p p' : Piece, (twoPieces 7).pieces = [p, p'] ∧
      Along mergeExCall FitsRing (udpPieceReset (zeroedHandle 2048))
        [noisy [Seg.zeros p, Seg.clean p']] ∧
      Along mergeExCall FitsRing (udpPieceReset (zeroedHandle 2048)) [stream [p, p']] ∧
      ¬ SameResult (udpPieceReset (zeroedHandle 2048)) [noisy [Seg.zeros p, Seg.clean p']]
        [stream [p, p']] := by
  have hwindow := (twoPieces 7).windowOf_pieces
  have hlen : (twoPieces 7).pieces.length = 2 := by
    rw [Payload.pieces_length, Payload.count, twoPieces_length]
    rfl
  obtain ⟨p, p', hpair⟩ := List.length_eq_two.mp hlen
  have hbound : ∀ r ∈ [p, p'], r.bytes.length ≤ 524 := by
    intro r hr
    rw [← hpair] at hr
    obtain ⟨i, -, rfl⟩ := List.mem_map.mp hr
    exact (twoPieces 7).piece_bytes_le i
  have hp := hbound p (by simp)
  have hp' := hbound p' (by simp)
  rw [hpair] at hwindow
  have hnoisy : (noisy [Seg.zeros p, Seg.clean p']).length ≤ 2048 := by
    show (p.bytes ++ List.replicate 12 0 ++ (p'.bytes ++ [] ++ [])).length ≤ 2048
    simp only [List.length_append, List.length_replicate, List.length_nil]
    omega
  have hstream : (stream [p, p']).length ≤ 2048 := by
    simp only [stream_cons, stream_nil, List.length_append, List.length_nil]
    omega
  have hfit := along_fitsRing_single (h := zeroedHandle 2048) hnoisy
  have hfit' := along_fitsRing_single (h := zeroedHandle 2048) hstream
  have hroom : ∀ n, min n 2048 + headSize ≤ intMax :=
    fun n => Nat.le_trans (Nat.add_le_add_right (Nat.min_le_right n 2048) headSize) (by decide)
  refine ⟨p, p', hpair, hfit, hfit', ?_⟩
  rintro ⟨_, _, _, _, _, _, hsame, _⟩
  have hring := (emptyRing_zeroed (show 1 ≤ 2048 by decide)).1
  have hfeed := feed_run rfl hring (twoPieces 7).count_pos (show NoSync [] from List.IsChain.nil)
    (show WindowOf _ _ ([Seg.zeros p, Seg.clean p'].map Seg.piece) from hwindow)
    (List.append_nil _) hfit (hroom _)
  have hclean := clean_run rfl hring (twoPieces 7).count_pos hwindow (List.append_nil _) hfit'
    (hroom _)
  exact zeros_not_resyncs p p' (hfeed.2.mp (hsame.trans hclean.1))

end LinuxCodeDemos.Udp

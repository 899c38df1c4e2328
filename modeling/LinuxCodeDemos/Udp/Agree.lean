/-
  LinuxCodeDemos.Udp.Agree

  The flat and the ring reassembler side by side, on datagrams of whole pieces.

  What either of them counts is determined by the headers alone: `Tally` is
  that accounting, with one verdict for every group that reaches its announced
  number of pieces.  Both receivers go through the same states; their codes are
  two folds over the verdicts of a datagram.  `udp_piece_merge` stores `-1` for
  a wrong byte total, `udp_piece_merge_ex` leaves its code as it is, so the two
  return the same code exactly when the last verdict of the datagram, if there
  is one, is not a wrong total.
-/

import LinuxCodeDemos.Udp.Bounds
import LinuxCodeDemos.Udp.Calls

namespace LinuxCodeDemos.Udp

open Lib

-- ============================================================================
-- The accounting of the headers
-- ============================================================================

/-- The group the headers have announced last, with the pieces and data bytes
    seen of it. -/
structure Tally where
  totalSize : Nat
  totalPieces : Nat
  pieces : Nat
  bytes : Nat
  deriving DecidableEq, Repr

namespace Tally

/-- Nothing announced yet. -/
def start : Tally := ⟨0, 0, 0, 0⟩

/-- The piece belongs to the group announced last. -/
def Continues (t : Tally) (p : Piece) : Prop :=
  t.totalSize ≠ 0 ∧ p.totalSize = t.totalSize ∧ p.totalPieces = t.totalPieces

instance (t : Tally) (p : Piece) : Decidable (t.Continues p) :=
  inferInstanceAs (Decidable (_ ∧ _ ∧ _))

/-- Count a piece; the verdict of a group with all its pieces is whether its
    bytes add up to the announced size. -/
def take (t : Tally) (p : Piece) : Tally × Option Bool :=
  let pieces := if t.Continues p then addInt t.pieces 1 else 1
  let bytes := addInt (if t.Continues p then t.bytes else 0) p.data.length
  if pieces = p.totalPieces then (⟨p.totalSize, 0, 0, bytes⟩, some (bytes == p.totalSize))
  else (⟨p.totalSize, p.totalPieces, pieces, bytes⟩, none)

/-- Count the pieces of a datagram, with the verdicts in order. -/
def takeAll : Tally → List Piece → Tally × List Bool
  | t, [] => (t, [])
  | t, p :: ps =>
      let rest := (t.take p).1.takeAll ps
      (rest.1, (t.take p).2.toList ++ rest.2)

end Tally

/-- In no datagram does the last group to get all its pieces have a wrong byte
    total. -/
def CleanEnds : Tally → List (List Piece) → Prop
  | _, [] => True
  | t, d :: ds => (t.takeAll d).2.getLast? ≠ some false ∧ CleanEnds (t.takeAll d).1 ds

-- ============================================================================
-- Both receivers keep the tally
-- ============================================================================

/-- The counters of a receive group. -/
def RecvGroup.tally (g : RecvGroup) : Tally :=
  ⟨g.totalSize, g.totalPieces, g.recvPieces, g.recvLen⟩

/-- A group with its block in place and memory to spare. -/
structure Ready (g : RecvGroup) : Prop where
  block : BlockInv g
  backed : Backed g
  heap : g.heap = []

/-- The counters after a piece has entered its group. -/
theorem enterGroup_tally {g g' : RecvGroup} {p : Piece} (hheap : g.heap = [])
    (h : enterGroup g p.totalSize p.totalPieces = .ok g') :
    g'.tally = ⟨p.totalSize, p.totalPieces,
      if g.tally.Continues p then addInt g.recvPieces 1 else 1,
      if g.tally.Continues p then g.recvLen else 0⟩ := by
  by_cases h0 : g.totalSize = 0
  · have hc : ¬ g.tally.Continues p := fun hc => hc.1 h0
    simp only [enterGroup, if_pos h0, startGroup_ok hheap, bind, Except.bind, groupOf, ne_eq,
      not_true_eq_false, or_self, if_false] at h
    cases h
    simp only [if_neg hc]
    rfl
  · by_cases hsame : p.totalSize = g.totalSize ∧ p.totalPieces = g.totalPieces
    · have hc : g.tally.Continues p := ⟨h0, hsame⟩
      simp only [enterGroup, if_neg h0, bind, Except.bind, hsame.1, hsame.2, ne_eq,
        not_true_eq_false, or_self, if_false] at h
      cases h
      simp only [if_pos hc, hsame.1, hsame.2]
      rfl
    · have hc : ¬ g.tally.Continues p := fun hc => hsame hc.2
      have hne : p.totalSize ≠ g.totalSize ∨ p.totalPieces ≠ g.totalPieces := by
        by_contra hno
        rw [not_or, not_not, not_not] at hno
        exact hsame hno
      have hstart := startGroup_ok (g := { g with recvPieces := addInt g.recvPieces 1 }) hheap
        p.totalSize p.totalPieces 1
      simp only [enterGroup, if_neg h0, bind, Except.bind, if_pos hne, hstart] at h
      cases h
      simp only [if_neg hc]
      rfl

theorem copyPiece_tally {g g' : RecvGroup} {pIndex : Nat} {data : List UInt8}
    (h : copyPiece g pIndex data = .ok g') : g'.tally = g.tally := by
  simp only [copyPiece, bind, Except.bind] at h
  split at h
  · cases h
  · cases h
    split <;> rfl

/-- The end of a piece, on a group whose counters are known. -/
theorem finishPiece_tally {g : RecvGroup} {ts tp pieces bytes : Nat}
    (h : g.tally = ⟨ts, tp, pieces, bytes⟩) (n : Nat) :
    ((finishPiece g n).1.tally, (finishPiece g n).2) =
      if pieces = tp then (⟨ts, 0, 0, addInt bytes n⟩, some (addInt bytes n == ts))
      else (⟨ts, tp, pieces, addInt bytes n⟩, none) := by
  simp only [RecvGroup.tally, Tally.mk.injEq] at h
  obtain ⟨rfl, rfl, rfl, rfl⟩ := h
  simp only [finishPiece]
  split <;> rfl

/-- One well-formed piece: taken, with the verdict of the headers. -/
theorem accept_tally {g : RecvGroup} {p : Piece} (hg : Ready g) (hfit : p.Fits) :
    ∃ g', p.accept g = .ok (.taken g' (g.tally.take p).2) ∧ g'.tally = (g.tally.take p).1 ∧
      Ready g' := by
  have hin : p.data = [] ∨ pieceFixSize * p.pIndex + p.data.length ≤ p.totalSize + 1 :=
    .inr (Nat.le_succ_of_le hfit)
  rcases acceptPiece_inside hg.block hg.backed hin p.totalPieces with
    ⟨g', verdict, hacc, hblock, hback, hheap⟩ | ⟨-, -, -, hne⟩
  · have hready : Ready g' := ⟨hblock, hback, hheap hg.heap⟩
    -- read the counters off the three steps of `acceptPiece`
    have hsteps := hacc
    unfold acceptPiece at hsteps
    split at hsteps
    · cases hsteps
    · next g₁ henter =>
        have ht₁ := enterGroup_tally hg.heap henter
        simp only [bind, Except.bind] at hsteps
        split at hsteps
        · cases hsteps
        · next g₂ hcopy =>
            have hfin := finishPiece_tally ((copyPiece_tally hcopy).trans ht₁) p.data.length
            cases hsteps
            have htake : ((finishPiece g₂ p.data.length).1.tally,
                (finishPiece g₂ p.data.length).2) = g.tally.take p := hfin
            obtain ⟨h1, h2⟩ := Prod.ext_iff.mp htake
            exact ⟨_, by rw [← h2]; exact hacc, h1, hready⟩
  · exact absurd hg.heap hne

/-- The code of a datagram from the verdicts of its groups. -/
def codeOfVerdicts (bad : Int → Int) (code : Int) (verdicts : List Bool) : Int :=
  verdicts.foldl (fun code verdict => codeAfter bad code (some verdict)) code

theorem codeOfVerdicts_cons (bad : Int → Int) (code : Int) (verdict : Option Bool)
    (rest : List Bool) :
    codeOfVerdicts bad code (verdict.toList ++ rest)
      = codeOfVerdicts bad (codeAfter bad code verdict) rest := by
  cases verdict <;> rfl

/-- The pieces of a datagram: the counters of the headers, and the same group
    whatever becomes of a wrong byte total. -/
theorem acceptAll_tally {ps : List Piece} (hfit : ∀ p ∈ ps, p.Fits) :
    ∀ {g : RecvGroup}, Ready g →
      ∃ g', (∀ bad code, acceptAll bad g ps code
          = .ok (g', [], codeOfVerdicts bad code (g.tally.takeAll ps).2)) ∧
        g'.tally = (g.tally.takeAll ps).1 ∧ Ready g' := by
  induction ps with
  | nil => exact fun {g} hg => ⟨g, fun _ _ => rfl, rfl, hg⟩
  | cons p ps ih =>
      intro g hg
      obtain ⟨g₁, hacc, ht₁, hg₁⟩ := accept_tally hg (hfit p (List.mem_cons_self ..))
      obtain ⟨g', hall, ht', hg'⟩ := ih (fun q hq => hfit q (List.mem_cons_of_mem _ hq)) hg₁
      rw [ht₁] at hall ht'
      refine ⟨g', fun bad code => ?_, ht', hg'⟩
      rw [acceptAll, hacc, Tally.takeAll, codeOfVerdicts_cons]
      exact hall bad _

/-- The two codes of a datagram differ exactly after a last wrong total. -/
theorem codeOfVerdicts_agree_iff (verdicts : List Bool) :
    codeOfVerdicts flatBad 0 verdicts = codeOfVerdicts ringBad 0 verdicts ↔
      verdicts.getLast? ≠ some false := by
  -- the ring's code never goes below zero
  have hnonneg : ∀ vs : List Bool, 0 ≤ codeOfVerdicts ringBad 0 vs := by
    intro vs
    induction vs using List.reverseRecOn with
    | nil => exact Int.le_refl 0
    | append_singleton vs v ih =>
        rw [codeOfVerdicts, List.foldl_append]
        cases v
        · exact ih
        · exact Int.one_nonneg
  induction verdicts using List.reverseRecOn with
  | nil => simp [codeOfVerdicts]
  | append_singleton vs v _ =>
      have hfold : ∀ bad, codeOfVerdicts bad 0 (vs ++ [v])
          = codeAfter bad (codeOfVerdicts bad 0 vs) (some v) := by
        intro bad
        rw [codeOfVerdicts, List.foldl_append]
        rfl
      rw [hfold, hfold, List.getLast?_concat]
      cases v with
      | true => simp [codeAfter]
      | false =>
          have := hnonneg vs
          simp only [codeAfter, flatBad, ringBad, ne_eq, not_true_eq_false, iff_false]
          omega

-- ============================================================================
-- Runs
-- ============================================================================

/-- What the caller sees of the handle after a call. -/
structure Seen where
  code : Int
  totalSize : Nat
  totalPieces : Nat
  recvPieces : Nat
  recvLen : Nat
  recvBuf : Option Block
  deriving DecidableEq

/-- A call with the observation it leaves. -/
def observed (call : UdpPiece → List UInt8 → Except Fault (UdpPiece × Int)) (h : UdpPiece)
    (datagram : List UInt8) : Except Fault (UdpPiece × Seen) :=
  (call h datagram).map fun (h', code) =>
    (h', ⟨code, h'.totalSize, h'.totalPieces, h'.recvPieces, h'.recvLen, h'.recvBuf⟩)

/-- The observation of a group with this code. -/
def RecvGroup.seen (g : RecvGroup) (code : Int) : Seen :=
  ⟨code, g.totalSize, g.totalPieces, g.recvPieces, g.recvLen, g.recvBuf⟩

/-- One datagram of whole pieces through both reassemblers. -/
theorem observed_datagram {capacity : Nat} (hmax : capacity ≤ ringMax) {hf hr : UdpPiece}
    (hring : EmptyRing capacity hr) (hsame : hr.toRecvGroup = hf.toRecvGroup)
    (hready : Ready hf.toRecvGroup) {d : List Piece} (hfit : ∀ p ∈ d, p.Fits)
    (hcap : (stream d).length ≤ capacity) :
    ∃ hf' hr', observed mergeCall hf (stream d)
        = .ok (hf', hf'.toRecvGroup.seen
            (codeOfVerdicts flatBad 0 (hf.toRecvGroup.tally.takeAll d).2)) ∧
      observed mergeExCall hr (stream d)
        = .ok (hr', hf'.toRecvGroup.seen
            (codeOfVerdicts ringBad 0 (hf.toRecvGroup.tally.takeAll d).2)) ∧
      EmptyRing capacity hr' ∧ hr'.toRecvGroup = hf'.toRecvGroup ∧ Ready hf'.toRecvGroup ∧
      hf'.toRecvGroup.tally = (hf.toRecvGroup.tally.takeAll d).1 := by
  obtain ⟨hinv, rfl⟩ := hring
  obtain ⟨g', hall, ht, hg⟩ := acceptAll_tally hfit hready
  have hflat := udpPieceMerge_stream hf d
  rw [hall] at hflat
  have hringed := udpPieceMergeEx_stream hinv (headroom_of_le hmax (stream d).length)
    (by rw [List.length_nil, Nat.zero_add]; exact hcap)
    (show [] ++ stream d = stream d ++ [] by simp) (show Pending [] [] from rfl)
  rw [hsame, hall] at hringed
  obtain ⟨rb, hrun, hinv', hcap', -⟩ := hringed
  refine ⟨{ hf with toRecvGroup := g' }, { hr with toRecvGroup := g', circularBuffer := rb },
    ?_, ?_, ⟨hinv', hcap'⟩, rfl, hg, ht⟩
  · rw [observed, hflat]
    rfl
  · rw [observed, hrun]
    rfl

/-- Both reassemblers along a run of datagrams. -/
theorem observed_run {capacity : Nat} (hmax : capacity ≤ ringMax) (ds : List (List Piece)) :
    ∀ {hf hr : UdpPiece}, EmptyRing capacity hr → hr.toRecvGroup = hf.toRecvGroup →
      Ready hf.toRecvGroup →
      (∀ d ∈ ds, (∀ p ∈ d, p.Fits) ∧ (stream d).length ≤ capacity) →
      ∃ hf' seenF hr' seenR,
        runOps (observed mergeCall) hf (ds.map stream) = .ok (hf', seenF) ∧
        runOps (observed mergeExCall) hr (ds.map stream) = .ok (hr', seenR) ∧
        seenF.map (fun s => { s with code := 0 }) = seenR.map (fun s => { s with code := 0 }) ∧
        (seenF = seenR ↔ CleanEnds hf.toRecvGroup.tally ds) := by
  induction ds with
  | nil =>
      intro hf hr _ _ _ _
      exact ⟨hf, [], hr, [], rfl, rfl, rfl, by simp [CleanEnds]⟩
  | cons d ds ih =>
      intro hf hr hring hsame hready hds
      obtain ⟨hfit, hcap⟩ := hds d (List.mem_cons_self ..)
      obtain ⟨hf₁, hr₁, hflat, hringed, hring₁, hsame₁, hready₁, ht⟩ :=
        observed_datagram hmax hring hsame hready hfit hcap
      obtain ⟨hf', seenF, hr', seenR, hrunF, hrunR, hstates, hiff⟩ := ih hring₁ hsame₁ hready₁
        (fun d' hd' => hds d' (List.mem_cons_of_mem _ hd'))
      refine ⟨hf', _, hr', _, runOps_cons hflat hrunF, runOps_cons hringed hrunR, ?_, ?_⟩
      · rw [List.map_cons, List.map_cons, hstates]
        rfl
      · rw [List.cons.injEq, hiff, ht, CleanEnds, ← codeOfVerdicts_agree_iff]
        refine and_congr_left' ⟨fun h => congrArg Seen.code h, fun h => by rw [h]⟩

/-- The two reassemblers on datagrams of whole well-formed pieces, each on a
    freshly reset handle: the states after every call are always the same, and
    the codes are the same exactly when no datagram ends its groups with a wrong
    byte total. -/
theorem udpPieceMerge_agree_iff (flat ring : UdpPiece) (q : List UInt8)
    (hflat : flat.heap = []) (hheap : ring.heap = []) (hring : RingInv ring.circularBuffer q)
    (hmax : ring.circularBuffer.capacity ≤ ringMax) (datagrams : List (List Piece))
    (hwf : ∀ d ∈ datagrams, (∀ p ∈ d, p.Fits) ∧
      (stream d).length ≤ ring.circularBuffer.capacity) :
    ∃ hf seenF hr seenR,
      runOps (observed mergeCall) (udpPieceReset flat) (datagrams.map stream)
        = .ok (hf, seenF) ∧
      runOps (observed mergeExCall) (udpPieceReset ring) (datagrams.map stream)
        = .ok (hr, seenR) ∧
      seenF.map (fun s => { s with code := 0 }) = seenR.map (fun s => { s with code := 0 }) ∧
      (seenF = seenR ↔ CleanEnds Tally.start datagrams) := by
  have hsame : (udpPieceReset ring).toRecvGroup = (udpPieceReset flat).toRecvGroup := by
    simp only [udpPieceReset, hheap, hflat]
  have hready : Ready (udpPieceReset flat).toRecvGroup := by
    refine ⟨?_, .inr rfl, hflat⟩
    intro b hb
    cases hb
  exact observed_run hmax datagrams (emptyRing_reset hring rfl) hsame hready hwf

/-- One byte of a frame that announces one piece and two bytes. -/
def shortPiece : Piece where
  totalSize := 2
  totalPieces := 1
  pIndex := 0
  spare := (0, 0)
  data := [7]
  totalSize_lt := by omega
  totalPieces_lt := by omega
  pIndex_lt := by omega
  data_lt := by decide
  data_pos := by decide

theorem shortPiece_wf {ds : List (List Piece)} (hds : ∀ d ∈ ds, d = [shortPiece]) :
    ∀ d ∈ ds, (∀ p ∈ d, p.Fits) ∧ (stream d).length ≤ 64 := by
  intro d hd
  rw [hds d hd]
  refine ⟨fun p hp => ?_, by decide⟩
  rw [List.mem_singleton.mp hp]
  show 512 * 0 + 1 ≤ 2
  decide

/-- Two short frames on the ring of 64 bytes. -/
theorem udpPieceMerge_agree_iff_short :
    ∃ hf seenF hr seenR,
      runOps (observed mergeCall) (udpPieceReset (zeroedHandle 64))
        ([[shortPiece], [shortPiece]].map stream) = .ok (hf, seenF) ∧
      runOps (observed mergeExCall) (udpPieceReset (zeroedHandle 64))
        ([[shortPiece], [shortPiece]].map stream) = .ok (hr, seenR) ∧
      seenF.map (fun s => { s with code := 0 }) = seenR.map (fun s => { s with code := 0 }) ∧
      (seenF = seenR ↔ CleanEnds Tally.start [[shortPiece], [shortPiece]]) :=
  udpPieceMerge_agree_iff (zeroedHandle 64) (zeroedHandle 64) [] rfl rfl
    (emptyRing_zeroed (by decide)).1 (by decide) [[shortPiece], [shortPiece]]
    (shortPiece_wf (by simp))

/-- A frame with a wrong byte total: `-1` from the flat reassembler, `0` from
    the ring reassembler. -/
theorem shortPiece_disagree :
    (runOps (observed mergeCall) (udpPieceReset (zeroedHandle 64)) [stream [shortPiece]]).map
        (fun x => x.2.map Seen.code) = .ok [-1] ∧
      (runOps (observed mergeExCall) (udpPieceReset (zeroedHandle 64)) [stream [shortPiece]]).map
        (fun x => x.2.map Seen.code) = .ok [0] := by
  exact ⟨rfl, rfl⟩

end LinuxCodeDemos.Udp

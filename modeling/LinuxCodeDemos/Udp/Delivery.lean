/-
  LinuxCodeDemos.Udp.Delivery

  Lossy delivery: pieces may be lost, duplicated and reordered.

  Both reassemblers decide completion by a piece count and a byte total.  Every
  window of as many deliveries as the payload has pieces is closed, whichever
  indices it has, and reported as a success exactly when its byte total is the
  payload's size.  For a payload below 1024 bytes the byte total pins down the
  window: there are at most two pieces and the second is shorter.  From 1024
  bytes on, pieces 0 and 1 have the same length, and delivering piece 0 twice
  instead of piece 1 goes unnoticed.
-/

import LinuxCodeDemos.Udp.RoundTrip

namespace LinuxCodeDemos.Udp

open Lib

/-- For every sequence of deliveries of the payload's pieces, one per call, the
    last call reports success only if every index has been delivered, and then
    the payload is in `recv_buf`. -/
def NoFalseCompletion (call : UdpPiece → List UInt8 → Except Fault (UdpPiece × Int))
    (h₀ : UdpPiece) (P : Payload) : Prop :=
  ∀ deliveries : List (Fin P.count), ∃ h codes,
    runOps call h₀ (deliveries.map fun i => (P.piece i).bytes) = .ok (h, codes) ∧
      (codes.getLast? = some 1 →
        (∀ i : Fin P.count, i ∈ deliveries) ∧ recvFrame h = P.bytes.map some)

section Deliveries

variable {call : UdpPiece → List UInt8 → Except Fault (UdpPiece × Int)} {bad : Int → Int}
  {Inv : UdpPiece → Prop} {ok : Piece → Prop} {P : Payload} {h₀ : UdpPiece}

/-- Whatever is delivered, the receiver is in the middle of some window of the
    latest deliveries. -/
theorem TakesPieces.deliveries (hc : TakesPieces call bad Inv ok)
    (hok : ∀ i, ok (P.piece i)) (hinv : Inv h₀)
    (hopen : OpenGroup h₀.toRecvGroup P.bytes.length P.count []) (ds : List (Fin P.count)) :
    ∃ (h : UdpPiece) (codes : List Int) (w : List (Fin P.count)),
      runOps call h₀ (ds.map fun i => (P.piece i).bytes) = .ok (h, codes) ∧ Inv h ∧
      OpenGroup h.toRecvGroup P.bytes.length P.count (w.map P.piece) ∧
      w.length < P.count ∧ ∀ i ∈ w, i ∈ ds := by
  induction ds using List.reverseRecOn with
  | nil => exact ⟨h₀, [], [], rfl, hinv, hopen, P.count_pos, by simp⟩
  | append_singleton ds i ih =>
      obtain ⟨h, codes, w, hrun, hinv', hopen', hlt, hsub⟩ := ih
      rw [List.map_append, List.map_singleton]
      by_cases hfull : w.length + 1 = P.count
      · obtain ⟨h', hcall, hinv'', hg⟩ := hc.step_close hinv' (hok i) hopen' (P.piece_fits i)
          (by rw [List.length_map]; exact hfull)
        exact ⟨h', _, [], runOps_append hrun (runOps_cons hcall rfl), hinv'',
          hg ▸ openGroup_closed P.count_pos, P.count_pos, by simp⟩
      · obtain ⟨h', hcall, hinv'', hopen''⟩ := hc.step_open hinv' (hok i) hopen'
          (P.piece_fits i) (by rw [List.length_map]; show w.length + 1 < P.count; omega)
        refine ⟨h', _, w ++ [i], runOps_append hrun (runOps_cons hcall rfl), hinv'', ?_, ?_, ?_⟩
        · rwa [List.map_append]
        · rw [List.length_append, List.length_singleton]
          omega
        · intro j hj
          rcases List.mem_append.mp hj with hj | hj
          · exact List.mem_append_left _ (hsub j hj)
          · exact List.mem_append_right _ hj

/-- Below 1024 bytes the byte total of a full window determines its indices. -/
theorem covers_of_dataTotal (hsmall : P.bytes.length < 1024) {w : List (Fin P.count)}
    (hlen : w.length = P.count) (htotal : dataTotal (w.map P.piece) = P.bytes.length)
    (i : Fin P.count) : i ∈ w := by
  have hcount : P.count = pieceCount P.bytes.length := rfl
  rw [P.dataTotal_map] at htotal
  match w, hlen with
  | [], hlen =>
      have := P.count_pos
      rw [List.length_nil] at hlen
      omega
  | [a], hlen =>
      have ha := a.isLt
      have hi := i.isLt
      rw [List.length_singleton] at hlen
      have : i = a := Fin.ext (by omega)
      simp [this]
  | [a, b], hlen =>
      have ha := a.isLt
      have hb := b.isLt
      have hi := i.isLt
      simp only [List.length_cons, List.length_nil] at hlen
      simp only [List.map_cons, List.map_nil, List.sum_cons, List.sum_nil, Nat.add_zero] at htotal
      -- two pieces: the first has 512 bytes, the second fewer
      have hne : (a : Nat) ≠ b := by
        intro hab
        simp only [pieceLen, pieceFixSize] at htotal
        unfold pieceCount pieceFixSize at hcount
        split_ifs at hcount <;> omega
      have hor : i = a ∨ i = b := by
        have : (i : Nat) = a ∨ (i : Nat) = b := by omega
        rcases this with h | h
        · exact .inl (Fin.ext h)
        · exact .inr (Fin.ext h)
      rcases hor with rfl | rfl <;> simp
  | a :: b :: c :: w, hlen =>
      simp only [List.length_cons] at hlen
      unfold pieceCount pieceFixSize at hcount
      split_ifs at hcount <;> omega

/-- Payloads below 1024 bytes are never reported complete too early. -/
theorem TakesPieces.noFalseCompletion (hc : TakesPieces call bad Inv ok) (hbad : bad 0 ≠ 1)
    (hok : ∀ i, ok (P.piece i)) (hinv : Inv h₀)
    (hopen : OpenGroup h₀.toRecvGroup P.bytes.length P.count [])
    (hsmall : P.bytes.length < 1024) : NoFalseCompletion call h₀ P := by
  intro ds
  cases ds using List.reverseRecOn with
  | nil => exact ⟨h₀, [], rfl, by simp⟩
  | append_singleton ds i =>
      obtain ⟨h, codes, w, hrun, hinv', hopen', hlt, hsub⟩ :=
        hc.deliveries hok hinv hopen ds
      rw [List.map_append, List.map_singleton]
      by_cases hfull : w.length + 1 = P.count
      · obtain ⟨h', hcall, -, hg⟩ := hc.step_close hinv' (hok i) hopen' (P.piece_fits i)
          (by rw [List.length_map]; exact hfull)
        refine ⟨h', _, runOps_append hrun (runOps_cons hcall rfl), fun hlast => ?_⟩
        rw [List.getLast?_append, List.getLast?_singleton, Option.some_or,
          Option.some.injEq] at hlast
        have hw : w.map P.piece ++ [P.piece i] = (w ++ [i]).map P.piece := by
          rw [List.map_append, List.map_singleton]
        rw [hw] at hlast hg
        -- the code is 1 only when the byte total is right
        have htotal : dataTotal ((w ++ [i]).map P.piece) = P.bytes.length := by
          by_contra hne
          have hfalse : (dataTotal ((w ++ [i]).map P.piece) == (P.piece i).totalSize) = false :=
            beq_eq_false_iff_ne.mpr hne
          rw [hfalse] at hlast
          exact hbad hlast
        have hcover := covers_of_dataTotal hsmall (w := w ++ [i])
          (by rw [List.length_append, List.length_singleton]; exact hfull) htotal
        refine ⟨fun j => ?_, (Payload.frame_of_closed hcover htotal hg).2⟩
        rcases List.mem_append.mp (hcover j) with hj | hj
        · exact List.mem_append_left _ (hsub j hj)
        · exact List.mem_append_right _ hj
      · obtain ⟨h', hcall, -, -⟩ := hc.step_open hinv' (hok i) hopen'
          (P.piece_fits i) (by rw [List.length_map]; show w.length + 1 < P.count; omega)
        refine ⟨h', _, runOps_append hrun (runOps_cons hcall rfl), fun hlast => ?_⟩
        rw [List.getLast?_append, List.getLast?_singleton, Option.some_or] at hlast
        cases hlast

/-- All indices in order, with piece 0 delivered again in the place of piece 1. -/
def repeatFirst (P : Payload) : List (Fin P.count) :=
  (List.finRange P.count).map fun i : Fin P.count =>
    if (i : Nat) = 1 then ⟨0, P.count_pos⟩ else i

theorem one_not_mem_repeatFirst {i : Fin P.count} (hi : (i : Nat) = 1) : i ∉ repeatFirst P := by
  intro hmem
  obtain ⟨j, -, hj⟩ := List.mem_map.mp hmem
  split at hj
  · rw [← hj] at hi
    cases hi
  · next hne => exact hne (hj ▸ hi)

/-- From 1024 bytes on the first two pieces have the same length. -/
theorem dataTotal_repeatFirst (hlarge : 1024 ≤ P.bytes.length) :
    dataTotal ((repeatFirst P).map P.piece) = P.bytes.length := by
  rw [← P.dataTotal_pieces, Payload.pieces, P.dataTotal_map, P.dataTotal_map, repeatFirst,
    List.map_map]
  congr 1
  apply List.map_congr_left
  intro i _
  by_cases hi : (i : Nat) = 1
  · rw [Function.comp, if_pos hi]
    simp only [hi, pieceLen, pieceFixSize]
    omega
  · simp only [Function.comp, if_neg hi]

/-- From 1024 bytes on some delivery without piece 1 is reported complete. -/
theorem TakesPieces.falseCompletion (hc : TakesPieces call bad Inv ok)
    (hok : ∀ i, ok (P.piece i)) (hinv : Inv h₀)
    (hopen : OpenGroup h₀.toRecvGroup P.bytes.length P.count [])
    (hlarge : 1024 ≤ P.bytes.length) : ¬ NoFalseCompletion call h₀ P := by
  intro hno
  have hlen : ((repeatFirst P).map P.piece).length = P.count := by
    rw [List.length_map, repeatFirst, List.length_map, List.length_finRange]
  obtain ⟨h', hrun, -, -⟩ := hc.run_close (P.windowOf_map (repeatFirst P))
    (fun p hp => by
      obtain ⟨i, -, rfl⟩ := List.mem_map.mp hp
      exact hok i)
    hinv hopen P.count_pos (by rw [List.length_nil, Nat.zero_add, hlen])
  obtain ⟨h'', codes, hrun', hlast⟩ := hno (repeatFirst P)
  rw [List.map_map] at hrun
  have heq := hrun.symm.trans hrun'
  cases heq
  have hone : 1 < P.count := by
    show 1 < pieceCount P.bytes.length
    unfold pieceCount pieceFixSize
    split <;> omega
  refine one_not_mem_repeatFirst (P := P) (i := ⟨1, hone⟩) rfl ((hlast ?_).1 ⟨1, hone⟩)
  rw [List.nil_append, dataTotal_repeatFirst hlarge, List.getLast?_append,
    List.getLast?_singleton]
  simp [codeAfter]

end Deliveries

/-- Under loss, duplication and reordering the reassemblers report success only
    with every piece received, for every sequence of deliveries, exactly when
    the payload is shorter than 1024 bytes. -/
theorem udpPiece_noFalseCompletion_iff (snd rcv : UdpPiece) (P : Payload) (q : List UInt8)
    (hmalloc : rcv.heap = []) (hring : RingInv rcv.circularBuffer q)
    (hcap : 524 ≤ rcv.circularBuffer.capacity) (hmax : rcv.circularBuffer.capacity ≤ ringMax) :
    cutDatagrams snd P.bytes = .ok ((List.finRange P.count).map fun i => (P.piece i).bytes) ∧
      (NoFalseCompletion mergeCall (udpPieceReset rcv) P ↔ P.bytes.length < 1024) ∧
      (NoFalseCompletion mergeExCall (udpPieceReset rcv) P ↔ P.bytes.length < 1024) := by
  have hopen := openGroup_reset hmalloc P.bytes.length P.count
  have hexok : ∀ i, (P.piece i).bytes.length ≤ rcv.circularBuffer.capacity :=
    fun i => Nat.le_trans (P.piece_bytes_le i) hcap
  have hempty := emptyRing_reset hring rfl
  refine ⟨(cutDatagrams_eq snd P).trans (congrArg _ P.pieces_bytes),
    ⟨fun h => ?_, fun h => ?_⟩, ⟨fun h => ?_, fun h => ?_⟩⟩
  · exact Nat.lt_of_not_le fun hle =>
      mergeCall_takesPieces.falseCompletion (fun _ => trivial) trivial hopen hle h
  · exact mergeCall_takesPieces.noFalseCompletion (by decide) (fun _ => trivial) trivial hopen h
  · exact Nat.lt_of_not_le fun hle =>
      (mergeExCall_takesPieces hmax).falseCompletion hexok hempty hopen hle h
  · exact (mergeExCall_takesPieces hmax).noFalseCompletion (by decide) hexok hempty hopen h

/-- The demo programs' ring, on a payload of two full pieces. -/
theorem udpPiece_noFalseCompletion_twoPieces :
    cutDatagrams (zeroedHandle (64 * 1024)) (twoPieces 7).bytes
        = .ok ((List.finRange (twoPieces 7).count).map fun i => ((twoPieces 7).piece i).bytes) ∧
      (NoFalseCompletion mergeCall (udpPieceReset (zeroedHandle (64 * 1024)))
          (twoPieces 7)
        ↔ (twoPieces 7).bytes.length < 1024) ∧
      (NoFalseCompletion mergeExCall (udpPieceReset (zeroedHandle (64 * 1024)))
          (twoPieces 7)
        ↔ (twoPieces 7).bytes.length < 1024) :=
  udpPiece_noFalseCompletion_iff _ (zeroedHandle (64 * 1024)) (twoPieces 7) [] rfl
    (emptyRing_zeroed (by decide)).1 (by decide) (by decide)

/-- Delivering the first of two full pieces twice is reported as a complete
    1024-byte frame, by both reassemblers. -/
theorem twoPieces_falseCompletion :
    ¬ NoFalseCompletion mergeCall (udpPieceReset (zeroedHandle (64 * 1024))) (twoPieces 7) ∧
      ¬ NoFalseCompletion mergeExCall (udpPieceReset (zeroedHandle (64 * 1024))) (twoPieces 7) := by
  have hempty := emptyRing_reset (emptyRing_zeroed (show 1 ≤ 64 * 1024 by omega)).1 rfl
  have hlarge : 1024 ≤ (twoPieces 7).bytes.length := Nat.le_of_eq (twoPieces_length 7).symm
  refine ⟨mergeCall_takesPieces.falseCompletion (fun _ => trivial) trivial
    (openGroup_reset rfl _ _) hlarge, ?_⟩
  exact (mergeExCall_takesPieces (by decide)).falseCompletion
    (fun i => Nat.le_trans ((twoPieces 7).piece_bytes_le i) (by decide)) hempty
    (openGroup_reset rfl _ _) hlarge

end LinuxCodeDemos.Udp

/-
  LinuxCodeDemos.Udp.Clients

  Two clients at one `echo_server`, their datagrams interleaved.

  The server has one handle for all peers and tells groups apart only by the
  announced size and number of pieces.  Payloads of different sizes restart the
  group at every change of the sender, so a group that gets all its pieces got
  them from one client.  Payloads of the same size form one group: the server
  cuts the interleaving into windows of as many datagrams as a payload has
  pieces.  A mixed window has either none or both of the two last pieces, and
  its byte total is right exactly when the last pieces are full ones.
-/

import LinuxCodeDemos.Lib.Interleave
import LinuxCodeDemos.Udp.EchoServer

namespace LinuxCodeDemos.Udp

open Lib

-- ============================================================================
-- Turns of the loop on whole pieces
-- ============================================================================

/-- The capacity `echo_server` gives its ring. -/
def serverCapacity : Nat := 64 * 1024

/-- Between two groups: the ring is empty and any piece opens a group. -/
structure Idle (h : UdpPiece) : Prop where
  ring : EmptyRing serverCapacity h
  open_any : ∀ ts tp, 0 < tp → OpenGroup h.toRecvGroup ts tp []

/-- A datagram the sender produces is not cut by `recvfrom` and fits the ring. -/
theorem server_takesPieces :
    TakesPieces mergeExCall ringBad (EmptyRing serverCapacity)
      (fun p => p.bytes.length ≤ serverCapacity) :=
  mergeExCall_takesPieces (by decide)

/-- A closed group leaves an idle handle, delivered or not. -/
theorem idle_of_closed {h : UdpPiece} {ts : Nat} {w : List Piece}
    (hring : EmptyRing serverCapacity h) (hg : h.toRecvGroup = closedOf ts w) (code : Int) :
    Idle (turnResult h code).1 := by
  have hheap : h.heap = [] := by rw [hg]; rfl
  have hreset : Idle (udpPieceReset h) :=
    ⟨emptyRing_reset hring.1 hring.2, fun ts tp _ => openGroup_reset hheap ts tp⟩
  unfold turnResult
  split
  · exact hreset
  · split
    · exact ⟨hring, fun ts tp htp => hg ▸ openGroup_closed htp⟩
    · exact hreset

/-- What is delivered of a full window: the assembled frame, if the byte total
    is right. -/
def windowDelivery (ts : Nat) (w : List Piece) : Option Block :=
  if dataTotal w = ts then some ((assemble ts w).take ts) else none

theorem delivery_of_closed {h : UdpPiece} {ts : Nat} {w : List Piece}
    (hg : h.toRecvGroup = closedOf ts w) :
    (turnResult h (codeAfter ringBad 0 (some (dataTotal w == ts)))).2 = windowDelivery ts w := by
  unfold windowDelivery
  by_cases htotal : dataTotal w = ts
  · have hframe : recvFrame h = (assemble ts w).take ts := by
      rw [recvFrame, hg]
      show (assemble ts w).take (dataTotal w) = _
      rw [htotal]
    rw [if_pos htotal, beq_iff_eq.mpr htotal, ← hframe]
    rfl
  · rw [if_neg htotal, beq_eq_false_iff_ne.mpr htotal]
    rfl

/-- As many pieces of one group as it announces. -/
theorem echoServer_window {h : UdpPiece} (hidle : Idle h) {ts tp : Nat} {w : List Piece}
    (hw : WindowOf ts tp w) (hbytes : ∀ p ∈ w, p.bytes.length ≤ 524) (hlen : w.length = tp)
    (htp : 0 < tp) :
    ∃ h', runOps echoServerTurn h (w.map Piece.bytes)
        = .ok (h', List.replicate (tp - 1) none ++ [windowDelivery ts w]) ∧ Idle h' := by
  obtain ⟨h', hrun, hring, hg⟩ := server_takesPieces.run_close hw
    (fun p hp => Nat.le_trans (hbytes p hp) (by decide)) hidle.ring (hidle.open_any ts tp htp)
    htp (by rw [List.length_nil, Nat.zero_add, hlen])
  rw [List.nil_append] at hrun hg
  have hne : w.map Piece.bytes ≠ [] := by
    intro hnil
    rw [List.map_eq_nil_iff.mp hnil, List.length_nil] at hlen
    omega
  have hloop := echoServer_of_calls (w.map Piece.bytes) hne (by rw [List.length_map]; exact hrun)
  rw [delivery_of_closed hg, List.length_map, hlen] at hloop
  exact ⟨_, hloop, idle_of_closed hring hg _⟩

-- ============================================================================
-- Different sizes
-- ============================================================================

/-- The next piece of a client whose window is made of its latest pieces. -/
theorem echoServer_own_piece {h : UdpPiece} {R : Payload} {p : Piece}
    {done later w : List Piece} (hR : R.pieces = done ++ p :: later) (hw : w <:+ done)
    (hring : EmptyRing serverCapacity h)
    (hopen : OpenGroup h.toRecvGroup R.bytes.length R.count w) :
    ∃ h' out w', echoServerTurn h p.bytes = .ok (h', out) ∧ EmptyRing serverCapacity h' ∧
      OpenGroup h'.toRecvGroup R.bytes.length R.count w' ∧ w' <:+ done ++ [p] ∧
      (∀ ts tp, 0 < tp → ts ≠ R.bytes.length → OpenGroup h'.toRecvGroup ts tp []) ∧
      ∀ frame, out = some frame → frame = R.bytes.map some := by
  have hmem : p ∈ R.pieces := by rw [hR]; simp
  obtain ⟨hts, htp, hfit⟩ := R.windowOf_pieces p hmem
  have hbytes : p.bytes.length ≤ serverCapacity :=
    Nat.le_trans (R.pieces_bounds.1 p hmem) (by decide)
  have hlen := congrArg List.length hR
  rw [R.pieces_length, List.length_append, List.length_cons] at hlen
  have hwlen := hw.length_le
  rw [← hts, ← htp] at hopen
  by_cases hfull : w.length + 1 = p.totalPieces
  · -- all pieces of this client, so the window is the payload
    have hlater : later = [] := List.eq_nil_of_length_eq_zero (by omega)
    have hwd : w = done := hw.eq_of_length (by omega)
    obtain ⟨h₁, hcall, hring₁, hg⟩ := server_takesPieces.step_close hring hbytes hopen hfit hfull
    have hall : w ++ [p] = R.pieces := by rw [hR, hwd, hlater]
    rw [hall] at hcall hg
    have hturn := echoServerTurn_of_call hcall
    have hdelivery := delivery_of_closed hg
    rw [hts, windowDelivery, if_pos R.dataTotal_pieces] at hdelivery
    rw [hts] at hturn
    have hidle := idle_of_closed hring₁ hg
      (codeAfter ringBad 0 (some (dataTotal R.pieces == R.bytes.length)))
    generalize turnResult h₁ (codeAfter ringBad 0 (some (dataTotal R.pieces == R.bytes.length)))
      = result at hturn hdelivery hidle
    refine ⟨result.1, result.2, [], hturn, hidle.ring, hidle.open_any _ _ R.count_pos,
      List.nil_suffix, fun ts tp htp' _ => hidle.open_any ts tp htp', fun frame hframe => ?_⟩
    rw [hdelivery] at hframe
    cases hframe
    exact R.assemble_take _ (fun i => List.mem_finRange i)
  · have htpc : p.totalPieces = R.count := htp
    obtain ⟨h₁, hcall, hring₁, hopen₁⟩ := server_takesPieces.step_open hring hbytes hopen hfit
      (by omega)
    rw [hts, htp] at hopen₁
    refine ⟨h₁, none, w ++ [p], echoServerTurn_of_call hcall, hring₁, hopen₁, ?_, ?_,
      fun _ h => nomatch h⟩
    · obtain ⟨front, rfl⟩ := hw
      exact ⟨front, by rw [List.append_assoc]⟩
    · intro ts tp _ hne
      rcases hopen₁.state with hg | ⟨hnil, -⟩
      · exact hg ▸ openGroup_other (Ne.symm hne)
      · exact absurd hnil (by simp)

/-- Every frame a run delivers is one of the two payloads. -/
def OnlyPayloads (P Q : Payload) (deliveries : List (Option Block)) : Prop :=
  ∀ frame, some frame ∈ deliveries → frame = P.bytes.map some ∨ frame = Q.bytes.map some

/-- Any interleaving of payloads of different sizes. -/
theorem echoServer_of_size_ne {P Q : Payload} (hne : P.bytes.length ≠ Q.bytes.length)
    {ps qs order : List Piece} (horder : Interleave ps qs order) :
    ∀ {h : UdpPiece} {doneP doneQ wP wQ : List Piece}, P.pieces = doneP ++ ps →
      Q.pieces = doneQ ++ qs → wP <:+ doneP → wQ <:+ doneQ → EmptyRing serverCapacity h →
      OpenGroup h.toRecvGroup P.bytes.length P.count wP →
      OpenGroup h.toRecvGroup Q.bytes.length Q.count wQ →
      ∃ h' deliveries, runOps echoServerTurn h (order.map Piece.bytes) = .ok (h', deliveries) ∧
        OnlyPayloads P Q deliveries := by
  induction horder with
  | nil =>
      intro h _ _ _ _ _ _ _ _ _ _ _
      exact ⟨h, [], rfl, fun _ hmem => nomatch hmem⟩
  | left _ ih =>
      intro h doneP doneQ wP wQ hP hQ hwP hwQ hring hopenP hopenQ
      obtain ⟨h₁, out, wP', hturn, hring₁, hopenP₁, hwP', hother, hout⟩ :=
        echoServer_own_piece hP hwP hring hopenP
      obtain ⟨h', deliveries, hrun, honly⟩ := ih (by rw [hP]; simp) hQ hwP' List.nil_suffix
        hring₁ hopenP₁ (hother _ _ Q.count_pos (Ne.symm hne))
      refine ⟨h', out :: deliveries, runOps_cons hturn hrun, fun frame hmem => ?_⟩
      rcases List.mem_cons.mp hmem with heq | hmem
      · exact .inl (hout frame heq.symm)
      · exact honly frame hmem
  | right _ ih =>
      intro h doneP doneQ wP wQ hP hQ hwP hwQ hring hopenP hopenQ
      obtain ⟨h₁, out, wQ', hturn, hring₁, hopenQ₁, hwQ', hother, hout⟩ :=
        echoServer_own_piece hQ hwQ hring hopenQ
      obtain ⟨h', deliveries, hrun, honly⟩ := ih hP (by rw [hQ]; simp) List.nil_suffix hwQ'
        hring₁ (hother _ _ P.count_pos hne) hopenQ₁
      refine ⟨h', out :: deliveries, runOps_cons hturn hrun, fun frame hmem => ?_⟩
      rcases List.mem_cons.mp hmem with heq | hmem
      · exact .inr (hout frame heq.symm)
      · exact honly frame hmem

-- ============================================================================
-- Equal sizes
-- ============================================================================

theorem Payload.pieces_lengths (P : Payload) :
    P.pieces.map (fun p => p.data.length) = (List.range P.count).map (pieceLen P.bytes.length) := by
  rw [← List.map_coe_finRange_eq_range, List.map_map, Payload.pieces, List.map_map]
  apply List.map_congr_left
  intro i _
  exact P.chunk_length i

/-- The bytes of the first pieces. -/
theorem Payload.dataTotal_take (P : Payload) {a : Nat} (ha : a ≤ P.count) :
    dataTotal (P.pieces.take a) = min P.bytes.length (pieceFixSize * a) := by
  rw [dataTotal, List.map_take, P.pieces_lengths, ← List.map_take, List.take_range,
    Nat.min_eq_left ha, sum_pieceLen]

/-- The bytes of the last pieces. -/
theorem Payload.dataTotal_drop (P : Payload) {a : Nat} (ha : a ≤ P.count) :
    dataTotal (P.pieces.drop a) = P.bytes.length - pieceFixSize * a := by
  have hsum := dataTotal_append (P.pieces.take a) (P.pieces.drop a)
  rw [List.take_append_drop, P.dataTotal_pieces, P.dataTotal_take ha] at hsum
  omega

theorem dataTotal_interleave {ps qs w : List Piece} (h : Interleave ps qs w) :
    dataTotal w = dataTotal ps + dataTotal qs := by
  rw [← dataTotal_append]
  exact (h.perm.map fun p => p.data.length).sum_eq

section EqualSizes

variable {P Q : Payload} {order : List Piece}

theorem mem_order (horder : Interleave P.pieces Q.pieces order) {p : Piece} (hp : p ∈ order) :
    p ∈ P.pieces ∨ p ∈ Q.pieces :=
  List.mem_append.mp (horder.perm.subset hp)

theorem length_order (hsize : P.bytes.length = Q.bytes.length)
    (horder : Interleave P.pieces Q.pieces order) : order.length = P.count + P.count := by
  have hcount : Q.count = P.count := congrArg pieceCount hsize.symm
  rw [horder.perm.length_eq, List.length_append, P.pieces_length, Q.pieces_length, hcount]

theorem windowOf_order (hsize : P.bytes.length = Q.bytes.length)
    (horder : Interleave P.pieces Q.pieces order) :
    WindowOf P.bytes.length P.count order ∧ ∀ p ∈ order, p.bytes.length ≤ 524 := by
  have hcount : Q.count = P.count := congrArg pieceCount hsize.symm
  refine ⟨?_, ?_⟩
  · intro p hp
    rcases mem_order horder hp with hp | hp
    · exact P.windowOf_pieces p hp
    · have hq := Q.windowOf_pieces p hp
      rwa [← hsize, hcount] at hq
  · intro p hp
    rcases mem_order horder hp with hp | hp
    · exact P.pieces_bounds.1 p hp
    · exact Q.pieces_bounds.1 p hp

/-- The server cuts the interleaving into two windows. -/
theorem echoServer_two_windows {h : UdpPiece} (hidle : Idle h)
    (hsize : P.bytes.length = Q.bytes.length) (horder : Interleave P.pieces Q.pieces order) :
    ∃ h', runOps echoServerTurn h (order.map Piece.bytes)
        = .ok (h', (List.replicate (P.count - 1) none
            ++ [windowDelivery P.bytes.length (order.take P.count)])
          ++ (List.replicate (P.count - 1) none
            ++ [windowDelivery P.bytes.length (order.drop P.count)])) := by
  obtain ⟨hwin, hbytes⟩ := windowOf_order hsize horder
  have hlen := length_order hsize horder
  obtain ⟨h₁, hrun₁, hidle₁⟩ := echoServer_window hidle (w := order.take P.count)
    (fun p hp => hwin p (List.mem_of_mem_take hp))
    (fun p hp => hbytes p (List.mem_of_mem_take hp))
    (by rw [List.length_take, hlen]; omega) P.count_pos
  obtain ⟨h₂, hrun₂, -⟩ := echoServer_window hidle₁ (w := order.drop P.count)
    (fun p hp => hwin p (List.mem_of_mem_drop hp))
    (fun p hp => hbytes p (List.mem_of_mem_drop hp))
    (by rw [List.length_drop, hlen]; omega) P.count_pos
  refine ⟨h₂, ?_⟩
  have hrun := runOps_append hrun₁ hrun₂
  rwa [← List.map_append, List.take_append_drop] at hrun

/-- The two windows of an interleaving: one payload each, or both mixed with a
    byte total of `2 * n` in all. -/
theorem window_cases (hsize : P.bytes.length = Q.bytes.length)
    (horder : Interleave P.pieces Q.pieces order) :
    (order.take P.count = P.pieces ∧ order.drop P.count = Q.pieces) ∨
    (order.take P.count = Q.pieces ∧ order.drop P.count = P.pieces) ∨
    (2 ≤ P.count ∧ dataTotal (order.take P.count) = pieceFixSize * P.count ∧
      dataTotal (order.drop P.count) + pieceFixSize * P.count = 2 * P.bytes.length) := by
  have hcount : Q.count = P.count := congrArg pieceCount hsize.symm
  have hlen := length_order hsize horder
  obtain ⟨a, b, h₁, h₂, ha, hb⟩ := horder.split P.count
  rw [P.pieces_length] at ha
  rw [Q.pieces_length, hcount] at hb
  have hab : a + b = P.count := by
    have hl := h₁.perm.length_eq
    rw [List.length_append, List.length_take, List.length_take, List.length_take, hlen,
      P.pieces_length, Q.pieces_length, hcount] at hl
    omega
  by_cases hb0 : b = 0
  · -- only the first client is in the first window
    have haP : a = P.pieces.length := by rw [P.pieces_length]; omega
    rw [hb0, List.take_zero, haP, List.take_length] at h₁
    rw [hb0, List.drop_zero, haP, List.drop_length] at h₂
    exact .inl ⟨h₁.eq_of_right_nil, h₂.eq_of_left_nil⟩
  · by_cases ha0 : a = 0
    · have hbQ : b = Q.pieces.length := by rw [Q.pieces_length]; omega
      rw [ha0, List.take_zero, hbQ, List.take_length] at h₁
      rw [ha0, List.drop_zero, hbQ, List.drop_length] at h₂
      exact .inr (.inl ⟨h₁.eq_of_left_nil, h₂.eq_of_right_nil⟩)
    · have hfull : pieceFixSize * (P.count - 1) < P.bytes.length :=
        lt_of_lt_pieceCount (show P.count - 1 < pieceCount P.bytes.length from by
          show P.count - 1 < P.count
          omega)
      refine .inr (.inr ⟨by omega, ?_, ?_⟩)
      · rw [dataTotal_interleave h₁, P.dataTotal_take ha, Q.dataTotal_take (by omega), ← hsize]
        simp only [pieceFixSize] at *
        omega
      · rw [dataTotal_interleave h₂, P.dataTotal_drop ha, Q.dataTotal_drop (by omega), ← hsize]
        simp only [pieceFixSize] at *
        omega

/-- Payloads of one size whose last piece is not full, or is the only one. -/
theorem echoServer_of_size_eq {h : UdpPiece} (hidle : Idle h)
    (hsize : P.bytes.length = Q.bytes.length)
    (hpart : ¬ (pieceFixSize ∣ P.bytes.length ∧ 1024 ≤ P.bytes.length))
    (horder : Interleave P.pieces Q.pieces order) :
    ∃ h' deliveries, runOps echoServerTurn h (order.map Piece.bytes) = .ok (h', deliveries) ∧
      OnlyPayloads P Q deliveries := by
  obtain ⟨h', hrun⟩ := echoServer_two_windows hidle hsize horder
  refine ⟨h', _, hrun, fun frame hmem => ?_⟩
  have hP : windowDelivery P.bytes.length P.pieces = some (P.bytes.map some) := by
    rw [windowDelivery, if_pos P.dataTotal_pieces]
    exact congrArg some (P.assemble_take _ (fun i => List.mem_finRange i))
  have hQ : windowDelivery P.bytes.length Q.pieces = some (Q.bytes.map some) := by
    rw [hsize, windowDelivery, if_pos Q.dataTotal_pieces]
    exact congrArg some (Q.assemble_take _ (fun i => List.mem_finRange i))
  simp only [List.mem_append, List.mem_replicate, List.mem_singleton, reduceCtorEq, and_false,
    false_or] at hmem
  rcases window_cases hsize horder with ⟨h₁, h₂⟩ | ⟨h₁, h₂⟩ | ⟨hk, h₁, h₂⟩
  · rw [h₁, h₂, hP, hQ, Option.some.injEq, Option.some.injEq] at hmem
    exact hmem
  · rw [h₁, h₂, hP, hQ, Option.some.injEq, Option.some.injEq] at hmem
    exact hmem.symm
  · -- a mixed window has a wrong byte total
    have hne : P.bytes.length ≠ pieceFixSize * P.count := by
      intro heq
      refine hpart ⟨⟨P.count, heq⟩, ?_⟩
      simp only [pieceFixSize] at heq
      omega
    rw [windowDelivery, windowDelivery, if_neg (by omega), if_neg (by omega)] at hmem
    rcases hmem with hmem | hmem <;> cases hmem

/-- All but the last piece of one client, then the first of the other. -/
def mixedOrder (P Q : Payload) : List Piece :=
  P.pieces.take (P.count - 1) ++ Q.pieces.take 1
    ++ (P.pieces.drop (P.count - 1) ++ Q.pieces.drop 1)

theorem mixedOrder_interleave (P Q : Payload) :
    Interleave P.pieces Q.pieces (mixedOrder P Q) := by
  have h₁ := (Interleave.only_left (P.pieces.take (P.count - 1))).append
    (Interleave.only_right (Q.pieces.take 1))
  have h₂ := (Interleave.only_left (P.pieces.drop (P.count - 1))).append
    (Interleave.only_right (Q.pieces.drop 1))
  have h := h₁.append h₂
  rwa [List.append_nil, List.nil_append, List.append_nil, List.nil_append,
    List.take_append_drop, List.take_append_drop] at h

/-- The first pieces have the first indices. -/
theorem Payload.pIndex_lt_of_mem_take (P : Payload) {a : Nat} {p : Piece}
    (h : p ∈ P.pieces.take a) : p.pIndex < a ∧ p.data.length ≤ pieceFixSize := by
  rw [Payload.pieces, ← List.map_take] at h
  obtain ⟨i, hi, rfl⟩ := List.mem_map.mp h
  have hval : (i : Nat) ∈ ((List.finRange P.count).take a).map Fin.val :=
    List.mem_map_of_mem hi
  rw [List.map_take, List.map_coe_finRange_eq_range, List.take_range, List.mem_range] at hval
  refine ⟨show (i : Nat) < a by omega, ?_⟩
  show (P.chunk i).length ≤ pieceFixSize
  rw [P.chunk_length]
  exact Nat.min_le_left ..

/-- Payloads of one size with at least two pieces, all full: the mixed window is
    delivered although nobody's last piece is in it. -/
theorem echoServer_mixed {h : UdpPiece} (hidle : Idle h)
    (hsize : P.bytes.length = Q.bytes.length) (hfull : pieceFixSize ∣ P.bytes.length)
    (hlarge : 1024 ≤ P.bytes.length) :
    ∃ h' deliveries,
      runOps echoServerTurn h ((mixedOrder P Q).map Piece.bytes) = .ok (h', deliveries) ∧
      ¬ OnlyPayloads P Q deliveries := by
  have hcount : Q.count = P.count := congrArg pieceCount hsize.symm
  have hn : P.bytes.length = pieceFixSize * P.count := by
    have hpc : P.count = pieceCount P.bytes.length := rfl
    unfold pieceCount at hpc
    rw [if_neg (by rw [Nat.mod_eq_zero_of_dvd hfull]; omega)] at hpc
    rw [hpc, Nat.mul_div_cancel' hfull]
  have hk : 2 ≤ P.count := by
    simp only [pieceFixSize] at hn
    omega
  have horder := mixedOrder_interleave P Q
  obtain ⟨h', hrun⟩ := echoServer_two_windows hidle hsize horder
  refine ⟨h', _, hrun, fun honly => ?_⟩
  -- the first window
  have hw : (mixedOrder P Q).take P.count = P.pieces.take (P.count - 1) ++ Q.pieces.take 1 := by
    have hlen : (P.pieces.take (P.count - 1) ++ Q.pieces.take 1).length = P.count := by
      rw [List.length_append, List.length_take, List.length_take, P.pieces_length,
        Q.pieces_length]
      omega
    rw [mixedOrder]
    exact List.take_left' hlen
  have htotal : dataTotal ((mixedOrder P Q).take P.count) = P.bytes.length := by
    rw [hw, dataTotal_append, P.dataTotal_take (by omega), Q.dataTotal_take (by omega), ← hsize,
      hn]
    simp only [pieceFixSize]
    omega
  have hwin : WindowOf P.bytes.length P.count ((mixedOrder P Q).take P.count) :=
    fun p hp => (windowOf_order hsize horder).1 p (List.mem_of_mem_take hp)
  have huncovered : ∀ p ∈ (mixedOrder P Q).take P.count,
      pieceFixSize * (P.count - 1) < pieceFixSize * p.pIndex ∨
        pieceFixSize * p.pIndex + p.data.length ≤ pieceFixSize * (P.count - 1) := by
    intro p hp
    rw [hw] at hp
    have hidx : p.pIndex < P.count - 1 ∧ p.data.length ≤ pieceFixSize := by
      rcases List.mem_append.mp hp with hp | hp
      · exact P.pIndex_lt_of_mem_take hp
      · obtain ⟨h1, h2⟩ := Q.pIndex_lt_of_mem_take hp
        exact ⟨by omega, h2⟩
    simp only [pieceFixSize] at *
    omega
  have hne := assemble_take_ne hwin (show pieceFixSize * (P.count - 1) < P.bytes.length by
    rw [hn]; simp only [pieceFixSize]; omega) huncovered
  have hdelivered : windowDelivery P.bytes.length ((mixedOrder P Q).take P.count)
      = some ((assemble P.bytes.length ((mixedOrder P Q).take P.count)).take P.bytes.length) :=
    if_pos htotal
  rw [hdelivered] at honly
  rcases honly _ (List.mem_append_left _ (List.mem_append_right _ (List.mem_singleton_self _)))
    with hframe | hframe
  · exact hne _ hframe
  · exact hne _ hframe

end EqualSizes

-- ============================================================================
-- Two clients
-- ============================================================================

/-- Whatever the interleaving of the two clients' datagrams, the server delivers
    complete payloads only. -/
def KeptApart (h₀ : UdpPiece) (P Q : Payload) : Prop :=
  ∀ order : List Piece, Interleave P.pieces Q.pieces order →
    ∃ h' deliveries, runOps echoServerRecv h₀ (order.map Piece.bytes) = .ok (h', deliveries) ∧
      OnlyPayloads P Q deliveries

/-- `recvfrom` cuts no datagram of a payload. -/
theorem runOps_echoServerRecv {P Q : Payload} {order : List Piece}
    (horder : Interleave P.pieces Q.pieces order) (h : UdpPiece) :
    runOps echoServerRecv h (order.map Piece.bytes)
      = runOps echoServerTurn h (order.map Piece.bytes) := by
  apply runOps_congr
  intro bs hbs s
  obtain ⟨p, hp, rfl⟩ := List.mem_map.mp hbs
  have hle : p.bytes.length ≤ 524 := by
    rcases mem_order horder hp with hp | hp
    · exact P.pieces_bounds.1 p hp
    · exact Q.pieces_bounds.1 p hp
  rw [echoServerRecv, List.take_of_length_le (Nat.le_trans hle (by decide))]

theorem idle_of_init {block : List UInt8} {h₀ : UdpPiece} (hblock : block.length = serverCapacity)
    (hinit : udpPieceInit serverCapacity (some block) [] = some h₀) : Idle h₀ := by
  have hring := circularBufferInit_sim (by decide) hblock rfl
  cases hinit
  exact ⟨hring, fun ts tp _ => ⟨.inr ⟨rfl, rfl, .inl rfl⟩, by simp [WindowOf]⟩⟩

/-- Two clients are kept apart, over every interleaving of their datagrams,
    unless their payloads have the same size, at least two pieces and only full
    pieces. -/
theorem echoServer_keptApart_iff (sndP sndQ h₀ : UdpPiece) (block : List UInt8)
    (hblock : block.length = serverCapacity)
    (hinit : udpPieceInit serverCapacity (some block) [] = some h₀) (P Q : Payload) :
    cutDatagrams sndP P.bytes = .ok (P.pieces.map Piece.bytes) ∧
      cutDatagrams sndQ Q.bytes = .ok (Q.pieces.map Piece.bytes) ∧
      (KeptApart h₀ P Q ↔ ¬ (P.bytes.length = Q.bytes.length ∧ 512 ∣ P.bytes.length ∧
        1024 ≤ P.bytes.length)) := by
  have hidle := idle_of_init hblock hinit
  refine ⟨cutDatagrams_eq sndP P, cutDatagrams_eq sndQ Q, fun hkept => ?_, fun hcond => ?_⟩
  · rintro ⟨hsize, hfull, hlarge⟩
    obtain ⟨h', deliveries, hrun, honly⟩ := hkept _ (mixedOrder_interleave P Q)
    obtain ⟨h'', deliveries', hrun', hnot⟩ := echoServer_mixed hidle hsize hfull hlarge
    rw [runOps_echoServerRecv (mixedOrder_interleave P Q), hrun'] at hrun
    cases hrun
    exact hnot honly
  · intro order horder
    rw [runOps_echoServerRecv horder]
    by_cases hsize : P.bytes.length = Q.bytes.length
    · exact echoServer_of_size_eq hidle hsize (fun h => hcond ⟨hsize, h⟩) horder
    · exact echoServer_of_size_ne hsize horder (List.nil_append _).symm
        (List.nil_append _).symm List.nil_suffix List.nil_suffix hidle.ring
        (hidle.open_any _ _ P.count_pos) (hidle.open_any _ _ Q.count_pos)

/-- Two clients with payloads of one byte. -/
theorem echoServer_keptApart_oneByte :
    cutDatagrams (zeroedHandle 64) zeroByte.bytes = .ok (zeroByte.pieces.map Piece.bytes) ∧
      cutDatagrams (zeroedHandle 64) oneByte.bytes = .ok (oneByte.pieces.map Piece.bytes) ∧
      (KeptApart (zeroedHandle serverCapacity) zeroByte oneByte ↔
        ¬ (zeroByte.bytes.length = oneByte.bytes.length ∧ 512 ∣ zeroByte.bytes.length ∧
          1024 ≤ zeroByte.bytes.length)) :=
  echoServer_keptApart_iff (zeroedHandle 64) (zeroedHandle 64) (zeroedHandle serverCapacity)
    (List.replicate serverCapacity 0) List.length_replicate rfl zeroByte oneByte

/-- Two clients that both send 1024 bytes are mixed up. -/
theorem echoServer_mixes_equal_sizes :
    ¬ KeptApart (zeroedHandle serverCapacity) (twoPieces 7) (twoPieces 8) := by
  intro hkept
  obtain ⟨h', deliveries, hrun, honly⟩ := hkept _ (mixedOrder_interleave _ _)
  have hidle : Idle (zeroedHandle serverCapacity) :=
    idle_of_init List.length_replicate (udpPieceInit_zeroed serverCapacity)
  obtain ⟨h'', deliveries', hrun', hnot⟩ := echoServer_mixed hidle
    ((twoPieces_length 7).trans (twoPieces_length 8).symm)
    (by rw [twoPieces_length]; decide) (Nat.le_of_eq (twoPieces_length 7).symm)
  rw [runOps_echoServerRecv (mixedOrder_interleave _ _), hrun'] at hrun
  cases hrun
  exact hnot honly

end LinuxCodeDemos.Udp

/-
  LinuxCodeDemos.Udp.Group

  What a receive group is for: a window of pieces.

  Both reassemblers keep four counters and a block.  The abstract state behind
  them is the list of pieces taken since the group began (its window): the
  counters are its length and its byte total, the block is the window laid out
  (`assemble`).  `accept_open` is the one step lemma: a piece of the same group
  extends the window, any other piece starts a new one, and a window that has
  as many pieces as announced is closed with the verdict "the byte total is
  right".  Nothing in the verdict mentions which pieces came.
-/

import Mathlib.Data.List.Induction
import LinuxCodeDemos.Udp.Wire

namespace LinuxCodeDemos.Udp

open Lib

/-- The data lies inside the group it announces. -/
def Piece.Fits (p : Piece) : Prop := pieceFixSize * p.pIndex + p.data.length ≤ p.totalSize

theorem Piece.Fits.totalSize_pos {p : Piece} (h : p.Fits) : 0 < p.totalSize := by
  have := p.data_pos
  unfold Piece.Fits at h
  omega

/-- The bytes of a window. -/
def dataTotal (w : List Piece) : Nat := (w.map (fun p => p.data.length)).sum

@[simp] theorem dataTotal_nil : dataTotal [] = 0 := rfl

@[simp] theorem dataTotal_append (w w' : List Piece) :
    dataTotal (w ++ w') = dataTotal w + dataTotal w' := by
  simp [dataTotal]

@[simp] theorem dataTotal_singleton (p : Piece) : dataTotal [p] = p.data.length := by
  simp [dataTotal]

theorem dataTotal_le (w : List Piece) : dataTotal w ≤ w.length * 65535 := by
  induction w with
  | nil => simp
  | cons p w ih =>
      have hp := p.data_lt
      have happ := dataTotal_append [p] w
      rw [List.singleton_append, dataTotal_singleton] at happ
      rw [happ, List.length_cons]
      omega

/-- The number of bytes on the wire. -/
theorem stream_length (ps : List Piece) :
    (stream ps).length = dataTotal ps + headSize * ps.length := by
  induction ps with
  | nil => rfl
  | cons p ps ih =>
      have happ := dataTotal_append [p] ps
      rw [List.singleton_append, dataTotal_singleton] at happ
      rw [stream_cons, List.length_append, ih, Piece.bytes_length, happ, List.length_cons]
      simp only [headSize]
      omega

/-- The window laid out in a fresh block. -/
def assemble (totalSize : Nat) (w : List Piece) : Block :=
  w.foldl (fun block p => splice block (pieceFixSize * p.pIndex) (p.data.map some))
    (List.replicate (totalSize + 1) none)

theorem assemble_append (totalSize : Nat) (w : List Piece) (p : Piece) :
    assemble totalSize (w ++ [p])
      = splice (assemble totalSize w) (pieceFixSize * p.pIndex) (p.data.map some) := by
  simp [assemble]

/-- All pieces of `w` announce this group and lie inside it. -/
def WindowOf (totalSize totalPieces : Nat) (w : List Piece) : Prop :=
  ∀ p ∈ w, p.totalSize = totalSize ∧ p.totalPieces = totalPieces ∧ p.Fits

theorem WindowOf.append {ts tp : Nat} {w : List Piece} {p : Piece} (h : WindowOf ts tp w)
    (hts : p.totalSize = ts) (htp : p.totalPieces = tp) (hfit : p.Fits) :
    WindowOf ts tp (w ++ [p]) := by
  intro q hq
  rcases List.mem_append.mp hq with hq | hq
  · exact h q hq
  · rw [List.mem_singleton.mp hq]
    exact ⟨hts, htp, hfit⟩

theorem assemble_length {ts tp : Nat} {w : List Piece} (h : WindowOf ts tp w) :
    (assemble ts w).length = ts + 1 := by
  induction w using List.reverseRecOn with
  | nil => simp [assemble]
  | append_singleton w p ih =>
      have hw : WindowOf ts tp w := fun q hq => h q (List.mem_append_left _ hq)
      obtain ⟨hts, -, hfit⟩ := h p (List.mem_append_right _ (List.mem_singleton_self p))
      have hlen := ih hw
      rw [assemble_append, splice_length, hlen]
      rw [hlen, List.length_map]
      unfold Piece.Fits at hfit
      omega

/-- A cell no piece of the window covers is left as `malloc` returned it. -/
theorem assemble_uncovered {ts tp : Nat} {w : List Piece} (h : WindowOf ts tp w) {j : Nat}
    (hj : j ≤ ts) (hnone : ∀ p ∈ w, j < pieceFixSize * p.pIndex ∨
      pieceFixSize * p.pIndex + p.data.length ≤ j) : (assemble ts w)[j]? = some none := by
  induction w using List.reverseRecOn with
  | nil =>
      rw [assemble, List.foldl_nil, List.getElem?_replicate, if_pos (by omega)]
  | append_singleton w p ih =>
      have hw : WindowOf ts tp w := fun q hq => h q (List.mem_append_left _ hq)
      have hp : p ∈ w ++ [p] := List.mem_append_right _ (List.mem_singleton_self p)
      obtain ⟨hts, -, hfit⟩ := h p hp
      have hout := hnone p hp
      have hle : pieceFixSize * p.pIndex + (p.data.map some).length ≤ (assemble ts w).length := by
        rw [assemble_length hw, List.length_map]
        unfold Piece.Fits at hfit
        omega
      rw [assemble_append, splice_getElem? hle, List.length_map, if_neg (by omega)]
      exact ih hw (fun q hq => hnone q (List.mem_append_left _ hq))

/-- A frame with an uncovered cell is nobody's payload. -/
theorem assemble_take_ne {ts tp : Nat} {w : List Piece} (h : WindowOf ts tp w) {j : Nat}
    (hj : j < ts) (hnone : ∀ p ∈ w, j < pieceFixSize * p.pIndex ∨
      pieceFixSize * p.pIndex + p.data.length ≤ j) (bs : List UInt8) :
    (assemble ts w).take ts ≠ bs.map some := by
  intro heq
  have hcell := congrArg (fun block => block[j]?) heq
  simp only [List.getElem?_take_of_lt hj, assemble_uncovered h (Nat.le_of_lt hj) hnone,
    List.getElem?_map] at hcell
  cases hb : bs[j]? with
  | none =>
      rw [hb] at hcell
      cases hcell
  | some b =>
      rw [hb] at hcell
      cases hcell

-- ============================================================================
-- The group as a function of its window
-- ============================================================================

/-- The receive state of a group whose window is `w`. -/
def groupOf (totalSize totalPieces : Nat) (w : List Piece) : RecvGroup :=
  { recvPieces := w.length, totalSize, totalPieces, recvLen := dataTotal w
    recvBuf := some (assemble totalSize w), heap := [] }

/-- The receive state after the window `w` was closed: `total_size`, `recv_len`
    and the block stay, the two piece counters are cleared. -/
def closedOf (totalSize : Nat) (w : List Piece) : RecvGroup :=
  { groupOf totalSize 0 w with recvPieces := 0 }

/-- The current window of group `(totalSize, totalPieces)` is `w`; the empty
    window is any state that this group would replace. -/
structure OpenGroup (g : RecvGroup) (totalSize totalPieces : Nat) (w : List Piece) : Prop where
  state : g = groupOf totalSize totalPieces w ∨
    w = [] ∧ g.heap = [] ∧
      (g.totalSize = 0 ∨ g.totalSize ≠ totalSize ∨ g.totalPieces ≠ totalPieces)
  window : WindowOf totalSize totalPieces w

theorem startGroup_ok {g : RecvGroup} (h : g.heap = []) (ts tp n : Nat) :
    startGroup g ts tp n = .ok { groupOf ts tp [] with recvPieces := n } := by
  simp [startGroup, malloc, h, groupOf, assemble]

/-- Entering a group with memory to spare: its window is extended by one. -/
theorem enterGroup_open {g : RecvGroup} {ts tp : Nat} {w : List Piece} (h : OpenGroup g ts tp w)
    (hts : 0 < ts) (hlen : w.length + 1 < 2 ^ 32) :
    enterGroup g ts tp = .ok { groupOf ts tp w with recvPieces := w.length + 1 } := by
  have hadd : addInt w.length 1 = w.length + 1 := addInt_of_lt hlen
  rcases h.state with rfl | ⟨rfl, hheap, hother⟩
  · simp only [enterGroup, groupOf, if_neg (show ¬ ts = 0 by omega), bind, Except.bind, ne_eq,
      not_true_eq_false, or_self, if_false, hadd]
  · by_cases h0 : g.totalSize = 0
    · simp only [enterGroup, if_pos h0, startGroup_ok hheap, bind, Except.bind, groupOf, ne_eq,
        not_true_eq_false, or_self, if_false, List.length_nil]
      rfl
    · have hother' : ts ≠ g.totalSize ∨ tp ≠ g.totalPieces := by
        rcases hother with h | h | h
        · exact absurd h h0
        · exact .inl h.symm
        · exact .inr h.symm
      simp only [enterGroup, if_neg h0, bind, Except.bind, if_pos hother']
      exact startGroup_ok (g := { g with recvPieces := addInt g.recvPieces 1 }) hheap ts tp 1

/-- One piece of a group that still expects pieces. -/
theorem accept_open {g : RecvGroup} {p : Piece} {w : List Piece}
    (h : OpenGroup g p.totalSize p.totalPieces w) (hfit : p.Fits)
    (hlt : w.length < p.totalPieces) :
    p.accept g = .ok
      (if w.length + 1 = p.totalPieces then
        .taken (closedOf p.totalSize (w ++ [p])) (some (dataTotal (w ++ [p]) == p.totalSize))
      else .taken (groupOf p.totalSize p.totalPieces (w ++ [p])) none) := by
  have hpieces := p.totalPieces_lt
  have hdata := p.data_lt
  have htotal := dataTotal_le w
  have hsum : addInt (dataTotal w) p.data.length = dataTotal (w ++ [p]) := by
    rw [dataTotal_append, dataTotal_singleton]
    exact addInt_of_lt (by omega)
  have hstore : pieceFixSize * p.pIndex + (p.data.map some).length
      ≤ (assemble p.totalSize w).length := by
    rw [assemble_length h.window, List.length_map]
    unfold Piece.Fits at hfit
    omega
  have hcopy : copyPiece
      { groupOf p.totalSize p.totalPieces w with recvPieces := w.length + 1 } p.pIndex p.data
      = .ok { groupOf p.totalSize p.totalPieces w with
          recvPieces := w.length + 1
          recvBuf := some (assemble p.totalSize (w ++ [p])) } := by
    simp only [copyPiece, groupOf, Option.getD_some, store_of_le hstore, bind, Except.bind,
      Option.isNone_some, assemble_append]
    rfl
  rw [Piece.accept, acceptPiece, enterGroup_open h hfit.totalSize_pos (by omega)]
  simp only [groupOf] at hcopy
  simp only [groupOf, hcopy, bind, Except.bind, finishPiece, hsum]
  by_cases hfull : w.length + 1 = p.totalPieces
  · simp only [if_pos hfull, closedOf, groupOf]
  · simp only [if_neg hfull, List.length_append, List.length_singleton]

/-- A taken piece leaves its group open with the longer window. -/
theorem openGroup_append {ts tp : Nat} {w : List Piece} {p : Piece} (h : WindowOf ts tp w)
    (hts : p.totalSize = ts) (htp : p.totalPieces = tp) (hfit : p.Fits) :
    OpenGroup (groupOf ts tp (w ++ [p])) ts tp (w ++ [p]) :=
  ⟨.inl rfl, h.append hts htp hfit⟩

/-- A closed group is replaced by the next piece of any group that announces
    pieces at all. -/
theorem openGroup_closed {ts tp ts' : Nat} {w : List Piece} (htp : 0 < tp) :
    OpenGroup (closedOf ts' w) ts tp [] :=
  ⟨.inr ⟨rfl, rfl, .inr (.inr (by show 0 ≠ tp; omega))⟩, by simp [WindowOf]⟩

/-- A freshly reset receiver can open any group. -/
theorem openGroup_reset {h : UdpPiece} (hheap : h.heap = []) (ts tp : Nat) :
    OpenGroup (udpPieceReset h).toRecvGroup ts tp [] :=
  ⟨.inr ⟨rfl, hheap, .inl rfl⟩, by simp [WindowOf]⟩

/-- A group of another size gives way to the next piece. -/
theorem openGroup_other {ts tp ts' tp' : Nat} {w : List Piece} (hne : ts' ≠ ts) :
    OpenGroup (groupOf ts' tp' w) ts tp [] :=
  ⟨.inr ⟨rfl, rfl, .inr (.inl hne)⟩, by simp [WindowOf]⟩

/-- Pieces of one group that leave it incomplete extend its window. -/
theorem acceptAll_open (bad : Int → Int) (code : Int) {ts tp : Nat} {ps : List Piece}
    (hps : WindowOf ts tp ps) : ∀ {g : RecvGroup} {w : List Piece}, OpenGroup g ts tp w →
      w.length + ps.length < tp →
      ∃ g', acceptAll bad g ps code = .ok (g', [], code) ∧ OpenGroup g' ts tp (w ++ ps) := by
  induction ps with
  | nil =>
      intro g w hopen _
      exact ⟨g, rfl, by rwa [List.append_nil]⟩
  | cons p ps ih =>
      intro g w hopen hlen
      obtain ⟨rfl, rfl, hfit⟩ := hps p (List.mem_cons_self ..)
      rw [List.length_cons] at hlen
      have hacc := accept_open hopen hfit (by omega)
      rw [if_neg (by omega)] at hacc
      obtain ⟨g', hrun, hopen'⟩ := ih (fun q hq => hps q (List.mem_cons_of_mem _ hq))
        (openGroup_append hopen.window rfl rfl hfit)
        (by rw [List.length_append, List.length_singleton]; omega)
      refine ⟨g', ?_, by rwa [List.append_assoc] at hopen'⟩
      rw [acceptAll, hacc]
      exact hrun

/-- Pieces of one group that complete its count close it. -/
theorem acceptAll_close {bad : Int → Int} {ts tp : Nat} {ps : List Piece} (hps : WindowOf ts tp ps)
    {g : RecvGroup} {w : List Piece} {code : Int} (hopen : OpenGroup g ts tp w)
    (hlt : w.length < tp) (hlen : w.length + ps.length = tp) :
    acceptAll bad g ps code =
      .ok (closedOf ts (w ++ ps), [], codeAfter bad code (some (dataTotal (w ++ ps) == ts))) := by
  induction ps generalizing g w with
  | nil =>
      rw [List.length_nil] at hlen
      omega
  | cons p ps ih =>
      obtain ⟨rfl, rfl, hfit⟩ := hps p (List.mem_cons_self ..)
      have hacc := accept_open hopen hfit hlt
      rw [List.length_cons] at hlen
      cases ps with
      | nil =>
          rw [if_pos (by simpa using hlen)] at hacc
          rw [acceptAll, hacc]
          rfl
      | cons q ps =>
          rw [List.length_cons] at hlen
          rw [if_neg (by omega)] at hacc
          have hrec := ih (fun r hr => hps r (List.mem_cons_of_mem _ hr))
            (openGroup_append hopen.window rfl rfl hfit)
            (by rw [List.length_append, List.length_singleton]; omega)
            (by rw [List.length_append, List.length_singleton, List.length_cons]; omega)
          rw [List.append_assoc, List.singleton_append] at hrec
          rw [acceptAll, hacc]
          exact hrec

-- ============================================================================
-- Windows of one payload
-- ============================================================================

/-- The first `k` piece lengths of `n` bytes add up to what they cover. -/
theorem sum_pieceLen (n k : Nat) :
    ((List.range k).map (pieceLen n)).sum = min n (pieceFixSize * k) := by
  induction k with
  | zero => simp
  | succ k ih =>
      rw [List.range_succ, List.map_append, List.sum_append, ih, List.map_singleton,
        List.sum_singleton, pieceLen]
      unfold pieceFixSize
      omega

theorem le_mul_pieceCount (n : Nat) : n ≤ pieceFixSize * pieceCount n := by
  unfold pieceCount pieceFixSize
  split <;> omega

namespace Payload

variable (P : Payload)

theorem piece_fits (i : Fin P.count) : (P.piece i).Fits := by
  have := lt_of_lt_pieceCount i.isLt
  show pieceFixSize * i + (P.chunk i).length ≤ P.bytes.length
  rw [P.chunk_length, pieceLen]
  omega

/-- The window of the pieces with these indices. -/
theorem windowOf_map (is : List (Fin P.count)) :
    WindowOf P.bytes.length P.count (is.map P.piece) := by
  intro p hp
  obtain ⟨i, -, rfl⟩ := List.mem_map.mp hp
  exact ⟨rfl, rfl, P.piece_fits i⟩

theorem windowOf_pieces : WindowOf P.bytes.length P.count P.pieces :=
  P.windowOf_map _

theorem dataTotal_map (is : List (Fin P.count)) :
    dataTotal (is.map P.piece) = (is.map (fun i : Fin P.count => pieceLen P.bytes.length i)).sum := by
  rw [dataTotal, List.map_map]
  congr 1
  apply List.map_congr_left
  intro i _
  exact P.chunk_length i

/-- The pieces of a payload carry all of it. -/
theorem dataTotal_pieces : dataTotal P.pieces = P.bytes.length := by
  have hsum := sum_pieceLen P.bytes.length P.count
  rw [← List.map_coe_finRange_eq_range, List.map_map] at hsum
  rw [pieces, dataTotal_map]
  refine hsum.trans ?_
  have := le_mul_pieceCount P.bytes.length
  exact Nat.min_eq_left this

/-- A cell of an assembled window of the payload: determined exactly when the
    piece it belongs to is in the window. -/
theorem assemble_getElem? (is : List (Fin P.count)) {j : Nat} (hj : j ≤ P.bytes.length) :
    (assemble P.bytes.length (is.map P.piece))[j]? =
      some (if j / pieceFixSize ∈ is.map Fin.val then P.bytes[j]? else none) := by
  induction is using List.reverseRecOn with
  | nil =>
      rw [assemble, List.map_nil, List.foldl_nil, List.getElem?_replicate, if_pos (by omega)]
      simp
  | append_singleton is i ih =>
      have hfit := P.piece_fits i
      have hlen := assemble_length (P.windowOf_map is)
      rw [List.map_append, List.map_singleton, assemble_append, splice_getElem? (by
        rw [hlen, List.length_map]
        unfold Piece.Fits at hfit
        exact Nat.le_succ_of_le hfit), ih]
      have hdata : (P.piece i).data.length = pieceLen P.bytes.length i := P.chunk_length i
      have hidx : (P.piece i).pIndex = i := rfl
      rw [List.length_map, hdata, hidx, List.map_append, List.map_singleton]
      by_cases hin : pieceFixSize * i ≤ j ∧ j < pieceFixSize * i + pieceLen P.bytes.length i
      · have hdiv : j / pieceFixSize = i := by
          simp only [pieceLen, pieceFixSize] at *
          omega
        rw [if_pos hin, if_pos (by simp [hdiv])]
        show ((P.chunk i).map some)[j - pieceFixSize * i]? = _
        rw [List.getElem?_map, chunk, List.getElem?_take_of_lt (by
          simp only [pieceLen] at hin; omega), List.getElem?_drop,
          show pieceFixSize * i + (j - pieceFixSize * i) = j by omega,
          List.getElem?_eq_getElem (by simp only [pieceLen] at hin; omega)]
        rfl
      · rw [if_neg hin]
        by_cases hdiv : j / pieceFixSize = i
        · -- the only cell of this piece outside the copy is the spare last one
          have hend : P.bytes[j]? = none := by
            apply List.getElem?_eq_none
            simp only [pieceLen, pieceFixSize] at *
            omega
          simp [hend]
        · simp only [List.mem_append, List.mem_singleton, hdiv, or_false]

/-- All indices present: the block holds the payload. -/
theorem assemble_take (is : List (Fin P.count)) (hall : ∀ i : Fin P.count, i ∈ is) :
    (assemble P.bytes.length (is.map P.piece)).take P.bytes.length = P.bytes.map some := by
  apply List.ext_getElem?
  intro j
  by_cases hj : j < P.bytes.length
  · rw [List.getElem?_take_of_lt hj, P.assemble_getElem? is (by omega), if_pos (by
      rw [List.mem_map]
      exact ⟨⟨j / pieceFixSize, div_lt_pieceCount hj⟩, hall _, rfl⟩), List.getElem?_map,
      List.getElem?_eq_getElem hj]
    rfl
  · rw [List.getElem?_eq_none (by rw [List.length_take]; omega),
      List.getElem?_eq_none (by rw [List.length_map]; omega)]

end Payload

end LinuxCodeDemos.Udp

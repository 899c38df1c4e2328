/-
  LinuxCodeDemos.SvShm.Counts

  The counters that both processes print at their end.

  They are `int`s, so everything is said modulo `2^32`.  The writer adds `shmp->cnt` behind its
  `releaseSem`, when the reader may already have the block: `Counted` holds all the same, since only
  the writer stores there.
-/

import LinuxCodeDemos.SvShm.Turns

namespace LinuxCodeDemos.SvShm

open Lib

section Counters

variable {bufSize : Nat}

/-- The blocks up to the first `read` that fails. -/
def blocksOf : List (Read bufSize) → Nat
  | [] => 0
  | .failed :: _ => 0
  | .block _ :: reads => 1 + blocksOf reads

/-- The value of `cnt`. -/
def Sys.cnt (s : Sys bufSize) : Int :=
  match s.shm with
  | none => 0
  | some seg => seg.cnt

/-- The value of `READ_SEM`. -/
def Sys.readSem (s : Sys bufSize) : Nat :=
  match s.sems with
  | none => 0
  | some sems => sems.read

/-- The bytes that the writer has read and not counted. -/
def writerOwes (wpc : WriterPc) (cnt : Int) : Nat :=
  match wpc with
  | .storeCnt n => n.toNat
  | .testError => cnt.toNat
  | .release => cnt.toNat
  | .testCnt => cnt.toNat
  | .next => cnt.toNat
  | _ => 0

/-- The bytes that the writer has read and not handed over. -/
def writerKeeps (wpc : WriterPc) (cnt : Int) : Nat :=
  match wpc with
  | .storeCnt n => n.toNat
  | .testError => cnt.toNat
  | .release => cnt.toNat
  | _ => 0

/-- The bytes that are handed over and not taken. -/
def handedBytes (readSem : Nat) (cnt : Int) : Nat := if readSem = 0 then 0 else cnt.toNat

/-- The bytes that the reader has counted and not written. -/
def readerAhead (rpc : ReaderPc) (cnt : Int) : Nat :=
  match rpc with
  | .write => cnt.toNat
  | .testWrite n => cnt.toNat - n.toNat
  | .writeFailed n => cnt.toNat - n.toNat
  | _ => 0

/-- The blocks that the reader has taken and not counted. -/
def readerOwes (rpc : ReaderPc) (cnt : Int) : Nat :=
  match rpc with
  | .testCnt => min 1 cnt.toNat
  | .addBytes => 1
  | .write => 1
  | .testWrite _ => 1
  | .writeFailed _ => 1
  | .release => 1
  | .next => 1
  | _ => 0

/-- The counters of both processes. -/
structure Counted (reads : List (Read bufSize)) (s : Sys bufSize) : Prop where
  wbytes : (s.wbytes + writerOwes s.wpc s.cnt + (bytesOf s.stdin).length) % 2 ^ 32
    = (bytesOf reads).length % 2 ^ 32
  wxfrs : (s.wxfrs + min 1 (writerOwes s.wpc s.cnt) + blocksOf s.stdin) % 2 ^ 32
    = blocksOf reads % 2 ^ 32
  rbytes : s.rbytes % 2 ^ 32 = (s.stdout.length + readerAhead s.rpc s.cnt) % 2 ^ 32
  rxfrs : (s.rxfrs + readerOwes s.rpc s.cnt + min 1 (handedBytes s.readSem s.cnt)
    + min 1 (writerKeeps s.wpc s.cnt) + blocksOf s.stdin) % 2 ^ 32 = blocksOf reads % 2 ^ 32

theorem readerAhead_of_turn {rpc : ReaderPc} (hturn : rpc.turn = 0) (cnt : Int) :
    readerAhead rpc cnt = 0 := by
  cases rpc with
  | write => cases hturn
  | testWrite n => cases hturn
  | writeFailed n => cases hturn
  | _ => rfl

theorem readerOwes_of_turn {rpc : ReaderPc} (hturn : rpc.turn = 0) (cnt cnt' : Int) :
    readerOwes rpc cnt = readerOwes rpc cnt' := by
  cases rpc with
  | testCnt => cases hturn
  | _ => rfl

end Counters

section Steps

variable {bufSize : Nat} {reads : List (Read bufSize)} {writes : List (Option Nat)}
  {s s' : Sys bufSize} {sems : Sems} {seg : Shmseg bufSize}

theorem Running.cnt_eq (h : Running reads writes s sems seg) : s.cnt = seg.cnt := by
  rw [Sys.cnt, h.shm_eq]

theorem Running.readSem_eq (h : Running reads writes s sems seg) : s.readSem = sems.read := by
  rw [Sys.readSem, h.sems_eq]

/-- A move of the writer that neither counts nor hands over. -/
theorem Counted.writerMoves (c : Counted reads s) {old wpc : WriterPc} (hpc : s.wpc = old)
    (howes : writerOwes wpc s.cnt = writerOwes old s.cnt)
    (hkeeps : writerKeeps wpc s.cnt = writerKeeps old s.cnt) : Counted reads { s with wpc } where
  wbytes := by
    have hwbytes := c.wbytes
    rw [hpc, ← howes] at hwbytes
    exact hwbytes
  wxfrs := by
    have hwxfrs := c.wxfrs
    rw [hpc, ← howes] at hwxfrs
    exact hwxfrs
  rbytes := c.rbytes
  rxfrs := by
    have hrxfrs := c.rxfrs
    rw [hpc, ← hkeeps] at hrxfrs
    exact hrxfrs

/-- A move of the reader that neither counts nor takes. -/
theorem Counted.readerMoves (c : Counted reads s) {old rpc : ReaderPc} (hpc : s.rpc = old)
    (hahead : readerAhead rpc s.cnt = readerAhead old s.cnt)
    (howes : readerOwes rpc s.cnt = readerOwes old s.cnt) : Counted reads { s with rpc } where
  wbytes := c.wbytes
  wxfrs := c.wxfrs
  rbytes := by
    have hrbytes := c.rbytes
    rw [hpc, ← hahead] at hrbytes
    exact hrbytes
  rxfrs := by
    have hrxfrs := c.rxfrs
    rw [hpc, ← howes] at hrxfrs
    exact hrxfrs

/-- A call on `WRITE_SEM`. -/
theorem Counted.setWrite (c : Counted reads s) (hsems : s.sems = some sems) (val : Nat) :
    Counted reads { s with sems := some (sems.set .writeSem val) } where
  wbytes := c.wbytes
  wxfrs := c.wxfrs
  rbytes := c.rbytes
  rxfrs := by
    have hrxfrs := c.rxfrs
    rw [Sys.readSem, hsems] at hrxfrs
    exact hrxfrs

theorem Counted.readStdin (c : Counted reads s) (hpc : s.wpc = .read) (hshm : s.shm = some seg) :
    Counted reads (s.readStdin seg) := by
  cases hstdin : s.stdin with
  | nil =>
      have hread : s.readStdin seg = { s with wpc := .storeCnt 0 } := by
        simp only [Sys.readStdin, hstdin]
      rw [hread]
      exact c.writerMoves hpc rfl rfl
  | cons read stdin =>
      cases read with
      | failed =>
          have hread : s.readStdin seg = { s with wpc := .storeCnt (-1) } := by
            simp only [Sys.readStdin, hstdin]
          rw [hread]
          exact c.writerMoves hpc rfl rfl
      | block b =>
          have hread : s.readStdin seg =
              { s with shm := some (seg.fill b), stdin, wpc := .storeCnt b.bytes.length } := by
            simp only [Sys.readStdin, hstdin]
          have hcnt : s.cnt = seg.cnt := by rw [Sys.cnt, hshm]
          have hpos := b.pos
          obtain ⟨hwbytes, hwxfrs, hrbytes, hrxfrs⟩ := c
          simp only [hpc, hstdin, hcnt, writerOwes, writerKeeps, bytesOf, blocksOf,
            List.length_append] at hwbytes hwxfrs hrbytes hrxfrs
          rw [hread]
          refine ⟨?_, ?_, hrbytes, ?_⟩
          · simp only [writerOwes, Int.toNat_natCast]
            omega
          · simp only [writerOwes, Int.toNat_natCast]
            omega
          · show (s.rxfrs + readerOwes s.rpc seg.cnt + min 1 (handedBytes s.readSem seg.cnt)
              + min 1 (b.bytes.length : Int).toNat + blocksOf stdin) % 2 ^ 32 = _
            rw [Int.toNat_natCast]
            omega

/-- `cnt` changes only when the reader does not look at it. -/
theorem Counted.storeCnt (c : Counted reads s) {n : Int} (hpc : s.wpc = .storeCnt n)
    (hturn : s.rpc.turn = 0) (hread : s.readSem = 0) (seg : Shmseg bufSize) :
    Counted reads { s with shm := some { seg with cnt := n }, wpc := .testError } := by
  obtain ⟨hwbytes, hwxfrs, hrbytes, hrxfrs⟩ := c
  rw [hpc] at hwbytes hwxfrs hrxfrs
  rw [readerAhead_of_turn hturn] at hrbytes
  rw [readerOwes_of_turn hturn s.cnt n, hread] at hrxfrs
  refine ⟨hwbytes, hwxfrs, ?_, ?_⟩
  · show _ = (_ + readerAhead s.rpc n) % _
    rw [readerAhead_of_turn hturn]
    exact hrbytes
  · show (s.rxfrs + readerOwes s.rpc n + min 1 (handedBytes s.readSem n) + min 1 n.toNat
      + blocksOf s.stdin) % 2 ^ 32 = _
    rw [hread]
    exact hrxfrs

theorem Counted.writerStoreCnt (c : Counted reads s) (h : Running reads writes s sems seg)
    {n : Int} (hpc : s.wpc = .storeCnt n) (hstep : SvShm.writerStep s = .ok s') :
    Counted reads s' := by
  have hturn := h.turn
  have hread := h.readSem_eq
  rw [SvShm.writerStep] at hstep
  rw [hpc, WriterPc.turn] at hturn
  rw [hpc] at hstep
  obtain rfl := writerAccess_ok h.shm_eq hstep
  exact c.storeCnt hpc (by omega) (by omega) seg

theorem Counted.writerTestError (c : Counted reads s) (h : Running reads writes s sems seg)
    (hpc : s.wpc = .testError) (hstep : SvShm.writerStep s = .ok s') : Counted reads s' := by
  have hcnt := h.cnt_eq
  rw [SvShm.writerStep] at hstep
  rw [hpc] at hstep
  obtain rfl := writerAccess_ok h.shm_eq hstep
  by_cases hfailed : seg.cnt = -1
  · rw [if_pos hfailed]
    refine c.writerMoves hpc ?_ ?_
    · rw [hcnt, hfailed]
      rfl
    · rw [hcnt, hfailed]
      rfl
  · rw [if_neg hfailed]
    exact c.writerMoves hpc rfl rfl

/-- The block that was kept is handed over. -/
theorem Counted.writerRelease (c : Counted reads s) (h : Running reads writes s sems seg)
    (hpc : s.wpc = .release) (hstep : SvShm.writerStep s = .ok s') : Counted reads s' := by
  have hturn := h.turn
  have hread := h.readSem_eq
  rw [SvShm.writerStep] at hstep
  rw [hpc, WriterPc.turn] at hturn
  rw [hpc] at hstep
  obtain rfl := writerRelease_ok h.sems_eq (by rw [Sems.get, show sems.read = 0 by omega]; decide)
    hstep
  obtain ⟨hwbytes, hwxfrs, hrbytes, hrxfrs⟩ := c
  rw [hpc] at hwbytes hwxfrs hrxfrs
  refine ⟨hwbytes, hwxfrs, hrbytes, ?_⟩
  show (s.rxfrs + readerOwes s.rpc s.cnt + min 1 (handedBytes (sems.read + 1) s.cnt) + min 1 0
    + blocksOf s.stdin) % 2 ^ 32 = _
  rw [hread, handedBytes, if_pos (by omega), writerKeeps] at hrxfrs
  rw [handedBytes, if_neg (by omega)]
  omega

theorem Counted.writerTestCnt (c : Counted reads s) (h : Running reads writes s sems seg)
    (hpc : s.wpc = .testCnt) (hstep : SvShm.writerStep s = .ok s') : Counted reads s' := by
  have hcnt := h.cnt_eq
  rw [SvShm.writerStep] at hstep
  rw [hpc] at hstep
  obtain rfl := writerAccess_ok h.shm_eq hstep
  by_cases hzero : seg.cnt = 0
  · rw [if_pos hzero]
    refine c.writerMoves hpc ?_ rfl
    rw [hcnt, hzero]
    rfl
  · rw [if_neg hzero]
    exact c.writerMoves hpc rfl rfl

/-- The writer counts the block. -/
theorem Counted.writerNext (c : Counted reads s) (h : Running reads writes s sems seg)
    (hpc : s.wpc = .next) (hstep : SvShm.writerStep s = .ok s') : Counted reads s' := by
  have hwriter := h.writer
  have hcnt := h.cnt_eq
  rw [SvShm.writerStep] at hstep
  rw [hpc] at hstep hwriter
  obtain rfl := writerAccess_ok h.shm_eq hstep
  obtain ⟨hwbytes, hwxfrs, hrbytes, hrxfrs⟩ := c
  have hpos := hwriter.1
  rw [hpc, writerOwes, hcnt] at hwbytes hwxfrs
  rw [hpc] at hrxfrs
  refine ⟨?_, ?_, hrbytes, hrxfrs⟩
  · show (addInt s.wbytes seg.cnt.toNat + 0 + (bytesOf s.stdin).length) % 2 ^ 32 = _
    rw [addInt]
    omega
  · show (addInt s.wxfrs 1 + min 1 0 + blocksOf s.stdin) % 2 ^ 32 = _
    rw [addInt]
    omega

theorem Counted.writerSemctl (c : Counted reads s) (h : Running reads writes s sems seg)
    (hpc : s.wpc = .semctl) (hstep : SvShm.writerStep s = .ok s') : Counted reads s' := by
  have hread := h.readSem_eq
  rw [SvShm.writerStep] at hstep
  rw [hpc, h.sems_eq] at hstep
  obtain rfl := Except.ok.inj hstep
  have hmoved : Counted reads { s with wpc := .shmdt } := c.writerMoves hpc rfl rfl
  refine ⟨hmoved.wbytes, hmoved.wxfrs, hmoved.rbytes, ?_⟩
  have hrxfrs := hmoved.rxfrs
  rw [show Sys.readSem { s with wpc := .shmdt } = sems.read from hread,
    h.exited (h.last (.inl hpc))] at hrxfrs
  exact hrxfrs

theorem Counted.writerStep (c : Counted reads s) (h : Running reads writes s sems seg)
    (hstep : SvShm.writerStep s = .ok s') : Counted reads s' := by
  have hwriter := h.writer
  cases hpc : s.wpc with
  | shmat =>
      rw [SvShm.writerStep, hpc] at hstep
      obtain rfl := writerAccess_ok h.shm_eq hstep
      exact c.writerMoves hpc rfl rfl
  | reserve =>
      rw [SvShm.writerStep, hpc] at hstep
      obtain ⟨-, rfl⟩ := writerReserve_ok h.sems_eq hstep
      have hmoved : Counted reads { s with wpc := .read } := c.writerMoves hpc rfl rfl
      exact hmoved.setWrite h.sems_eq _
  | read =>
      rw [SvShm.writerStep, hpc] at hstep
      obtain rfl := writerAccess_ok h.shm_eq hstep
      exact c.readStdin hpc h.shm_eq
  | storeCnt n => exact c.writerStoreCnt h hpc hstep
  | testError => exact c.writerTestError h hpc hstep
  | release => exact c.writerRelease h hpc hstep
  | testCnt => exact c.writerTestCnt h hpc hstep
  | next => exact c.writerNext h hpc hstep
  | lastReserve =>
      rw [SvShm.writerStep, hpc] at hstep
      obtain ⟨-, rfl⟩ := writerReserve_ok h.sems_eq hstep
      have hmoved : Counted reads { s with wpc := .semctl } := c.writerMoves hpc rfl rfl
      exact hmoved.setWrite h.sems_eq _
  | semctl => exact c.writerSemctl h hpc hstep
  | readFailed =>
      rw [SvShm.writerStep, hpc] at hstep
      cases hstep
  | _ =>
      rw [hpc] at hwriter
      exact hwriter.elim

/-- `write` of some of the block. -/
theorem Counted.writesSome (c : Counted reads s) (h : Running reads writes s sems seg)
    (hpc : s.rpc = .write) {m : Nat} {n : Int} (hm : m ≤ seg.cnt.toNat) (hmn : n.toNat = m)
    (writes' : List (Option Nat)) :
    Counted reads
      { s with stdout := s.stdout ++ seg.buf.take m, writes := writes', rpc := .testWrite n } := by
  have hfilled := h.reader
  rw [hpc] at hfilled
  have hle := hfilled.2
  have hlen : (seg.buf.take m).length = m := by
    rw [List.length_take, seg.length_buf]
    omega
  obtain ⟨hwbytes, hwxfrs, hrbytes, hrxfrs⟩ := c
  rw [hpc] at hrbytes hrxfrs
  refine ⟨hwbytes, hwxfrs, ?_, hrxfrs⟩
  show s.rbytes % 2 ^ 32
    = ((s.stdout ++ seg.buf.take m).length + (s.cnt.toNat - n.toNat)) % 2 ^ 32
  rw [readerAhead] at hrbytes
  rw [List.length_append, hlen, hmn, h.cnt_eq, Nat.add_assoc, Nat.add_sub_cancel' hm, ← h.cnt_eq]
  exact hrbytes

theorem Counted.writeStdout (c : Counted reads s) (h : Running reads writes s sems seg)
    (hpc : s.rpc = .write) : Counted reads (s.writeStdout seg) := by
  rw [Sys.writeStdout]
  split
  · exact c.writesSome h hpc (Nat.le_refl _) rfl s.writes
  · next rest _ =>
      have hnone := c.writesSome h hpc (m := 0) (n := -1) (Nat.zero_le _) rfl rest
      rw [List.take_zero, List.append_nil] at hnone
      exact hnone
  · next n rest _ => exact c.writesSome h hpc (Nat.min_le_right _ _) (Int.toNat_natCast _) rest

/-- The block that was handed over is taken. -/
theorem Counted.readerReserve (c : Counted reads s) (h : Running reads writes s sems seg)
    (hpc : s.rpc = .reserve) (hstep : SvShm.readerStep s = .ok s') : Counted reads s' := by
  have hturn := h.turn
  have hread := h.readSem_eq
  rw [SvShm.readerStep] at hstep
  rw [hpc] at hstep hturn
  obtain ⟨hturn', rfl⟩ := readerReserve_ok h.sems_eq hstep
  simp only [ReaderPc.turn, Sems.get] at hturn' hturn
  obtain ⟨hwbytes, hwxfrs, hrbytes, hrxfrs⟩ := c
  rw [hpc] at hrbytes hrxfrs
  refine ⟨hwbytes, hwxfrs, hrbytes, ?_⟩
  show (s.rxfrs + min 1 s.cnt.toNat + min 1 (handedBytes (sems.read - 1) s.cnt)
    + min 1 (writerKeeps s.wpc s.cnt) + blocksOf s.stdin) % 2 ^ 32 = _
  rw [hread, handedBytes, if_neg hturn', show readerOwes .reserve s.cnt = 0 from rfl] at hrxfrs
  rw [handedBytes, if_pos (by omega)]
  omega

theorem Counted.readerTestCnt (c : Counted reads s) (h : Running reads writes s sems seg)
    (hpc : s.rpc = .testCnt) (hstep : SvShm.readerStep s = .ok s') : Counted reads s' := by
  have hturn := h.turn
  have hcnt := h.cnt_eq
  rw [SvShm.readerStep] at hstep
  rw [hpc] at hstep hturn
  obtain rfl := readerAccess_ok h.shm_eq hstep
  simp only [ReaderPc.turn] at hturn
  have hwriter := h.writer
  rw [show sems.write = 0 by omega] at hwriter
  by_cases hzero : seg.cnt = 0
  · rw [if_pos hzero]
    refine c.readerMoves hpc rfl ?_
    rw [hcnt, hzero]
    rfl
  · rw [if_neg hzero]
    refine c.readerMoves hpc rfl ?_
    rcases writerFits_handed hwriter (by omega) with ⟨hend, -⟩ | ⟨hpos, -⟩
    · exact absurd hend hzero
    · rw [hcnt, readerOwes, readerOwes]
      omega

/-- The reader counts the bytes before it writes them. -/
theorem Counted.readerAddBytes (c : Counted reads s) (h : Running reads writes s sems seg)
    (hpc : s.rpc = .addBytes) (hstep : SvShm.readerStep s = .ok s') : Counted reads s' := by
  have hcnt := h.cnt_eq
  rw [SvShm.readerStep] at hstep
  rw [hpc] at hstep
  obtain rfl := readerAccess_ok h.shm_eq hstep
  obtain ⟨hwbytes, hwxfrs, hrbytes, hrxfrs⟩ := c
  rw [hpc] at hrbytes hrxfrs
  refine ⟨hwbytes, hwxfrs, ?_, hrxfrs⟩
  show addInt s.rbytes seg.cnt.toNat % 2 ^ 32 = (s.stdout.length + s.cnt.toNat) % 2 ^ 32
  rw [show readerAhead .addBytes s.cnt = 0 from rfl] at hrbytes
  rw [addInt, hcnt]
  omega

theorem Counted.readerTestWrite (c : Counted reads s) (h : Running reads writes s sems seg)
    {n : Int} (hpc : s.rpc = .testWrite n) (hstep : SvShm.readerStep s = .ok s') :
    Counted reads s' := by
  have hcnt := h.cnt_eq
  rw [SvShm.readerStep] at hstep
  rw [hpc] at hstep
  obtain rfl := readerAccess_ok h.shm_eq hstep
  by_cases hall : n = seg.cnt
  · rw [if_pos hall]
    refine c.readerMoves hpc ?_ rfl
    rw [hcnt, hall]
    exact (Nat.sub_self _).symm
  · rw [if_neg hall]
    exact c.readerMoves hpc rfl rfl

/-- And the block behind its `releaseSem`. -/
theorem Counted.readerNext (c : Counted reads s)
    (hpc : s.rpc = .next) (hstep : SvShm.readerStep s = .ok s') : Counted reads s' := by
  rw [SvShm.readerStep] at hstep
  rw [hpc] at hstep
  obtain rfl := Except.ok.inj hstep
  obtain ⟨hwbytes, hwxfrs, hrbytes, hrxfrs⟩ := c
  rw [hpc] at hrbytes hrxfrs
  refine ⟨hwbytes, hwxfrs, hrbytes, ?_⟩
  show (addInt s.rxfrs 1 + 0 + min 1 (handedBytes s.readSem s.cnt)
    + min 1 (writerKeeps s.wpc s.cnt) + blocksOf s.stdin) % 2 ^ 32 = _
  rw [readerOwes] at hrxfrs
  rw [addInt]
  omega

/-- Giving the turn back to the writer counts nothing. -/
theorem Counted.readerGives (c : Counted reads s) (h : Running reads writes s sems seg)
    {old : ReaderPc} (hpc : s.rpc = old) (hturn : old.turn = 1) (rpc : ReaderPc)
    (hahead : readerAhead rpc s.cnt = readerAhead old s.cnt)
    (howes : readerOwes rpc s.cnt = readerOwes old s.cnt)
    (hstep : s.readerSemop (releaseSem s.sems .writeSem) rpc = .ok s') : Counted reads s' := by
  have hone := h.turn
  rw [hpc, hturn] at hone
  obtain rfl := readerRelease_ok h.sems_eq (by rw [Sems.get, show sems.write = 0 by omega]; decide)
    hstep
  have hmoved : Counted reads { s with rpc } := c.readerMoves hpc hahead howes
  exact hmoved.setWrite h.sems_eq _

theorem Counted.readerStep (c : Counted reads s) (h : Running reads writes s sems seg)
    (hstep : SvShm.readerStep s = .ok s') : Counted reads s' := by
  cases hpc : s.rpc with
  | semget =>
      rw [SvShm.readerStep, hpc] at hstep
      obtain rfl := Except.ok.inj hstep
      rw [if_pos (by rw [h.sems_eq]; rfl)]
      exact c.readerMoves hpc rfl rfl
  | shmget =>
      rw [SvShm.readerStep, hpc] at hstep
      obtain rfl := Except.ok.inj hstep
      rw [if_pos (by rw [h.shm_eq]; rfl)]
      exact c.readerMoves hpc rfl rfl
  | shmat =>
      rw [SvShm.readerStep, hpc] at hstep
      obtain rfl := readerAccess_ok h.shm_eq hstep
      exact c.readerMoves hpc rfl rfl
  | reserve => exact c.readerReserve h hpc hstep
  | testCnt => exact c.readerTestCnt h hpc hstep
  | addBytes => exact c.readerAddBytes h hpc hstep
  | write =>
      rw [SvShm.readerStep, hpc] at hstep
      obtain rfl := readerAccess_ok h.shm_eq hstep
      exact c.writeStdout h hpc
  | testWrite n => exact c.readerTestWrite h hpc hstep
  | release =>
      rw [SvShm.readerStep, hpc] at hstep
      exact c.readerGives h hpc rfl .next rfl rfl hstep
  | next => exact c.readerNext hpc hstep
  | shmdt =>
      rw [SvShm.readerStep, hpc] at hstep
      obtain rfl := Except.ok.inj hstep
      exact c.readerMoves hpc rfl rfl
  | lastRelease =>
      rw [SvShm.readerStep, hpc] at hstep
      exact c.readerGives h hpc rfl .exited rfl rfl hstep
  | _ =>
      rw [SvShm.readerStep, hpc] at hstep
      cases hstep

end Steps

end LinuxCodeDemos.SvShm

/-
  LinuxCodeDemos.SvShm.Turns

  What every step of the writer and of the reader keeps, from the time both objects exist until the
  writer removes them.

  - There is one turn: it is the value of one of the semaphores, or one of the processes has it
    (`Running.turn`).
  - What the writer has read is in `stdout`, or in the segment (`Running.bytes`).
  - The writer looks at `cnt` once more behind its `releaseSem`; the reader never stores there.
-/

import LinuxCodeDemos.SvShm.System

namespace LinuxCodeDemos.SvShm

open Lib

-- ============================================================================
-- The invariant
-- ============================================================================

/-- The writer may use the segment, or will not give it back any more. -/
def WriterPc.turn : WriterPc → Nat
  | .read => 1
  | .storeCnt _ => 1
  | .testError => 1
  | .release => 1
  | .semctl => 1
  | .readFailed => 1
  | _ => 0

/-- The reader may use the segment, or has not told the writer yet that it is done. -/
def ReaderPc.turn : ReaderPc → Nat
  | .testCnt => 1
  | .addBytes => 1
  | .write => 1
  | .testWrite _ => 1
  | .release => 1
  | .shmdt => 1
  | .lastRelease => 1
  | .writeFailed _ => 1
  | _ => 0

section Invariant

variable {bufSize : Nat}

/-- The bytes up to the first `read` that fails. -/
def bytesOf : List (Read bufSize) → List UInt8
  | [] => []
  | .failed :: _ => []
  | .block b :: reads => b.bytes ++ bytesOf reads

/-- `n` is a number of bytes in `buf`. -/
def Filled (bufSize : Nat) (n : Int) : Prop := 0 < n ∧ n ≤ bufSize

/-- `read` may have returned `n` and left `stdin`. -/
def Returned (stdin : List (Read bufSize)) (n : Int) : Prop :=
  (n = -1 ∧ ∃ reads, stdin = .failed :: reads) ∨ (n = 0 ∧ stdin = []) ∨ Filled bufSize n

/-- What the writer's place says about the segment. -/
def WriterFits (wpc : WriterPc) (writeSem : Nat) (cnt : Int) (stdin : List (Read bufSize)) : Prop :=
  match wpc with
  | .shmat => writeSem = 1
  | .reserve => writeSem = 1 ∨ Filled bufSize cnt
  | .read => True
  | .storeCnt n => Returned stdin n
  | .testError => Returned stdin cnt
  | .release => (cnt = 0 ∧ stdin = []) ∨ Filled bufSize cnt
  | .testCnt => (cnt = 0 ∧ stdin = []) ∨ Filled bufSize cnt
  | .next => Filled bufSize cnt
  | .lastReserve => cnt = 0 ∧ stdin = []
  | .semctl => cnt = 0 ∧ stdin = []
  | .readFailed => cnt = -1 ∧ ∃ reads, stdin = .failed :: reads
  | _ => False

/-- What the reader's place says about the segment. -/
def ReaderFits (bufSize : Nat) (writes : List (Option Nat)) (rpc : ReaderPc) (cnt : Int) : Prop :=
  match rpc with
  | .addBytes => Filled bufSize cnt
  | .write => Filled bufSize cnt
  | .testWrite n => Filled bufSize cnt ∧ n ≤ cnt ∧ (writes = [] → n = cnt)
  | .writeFailed n => n < cnt ∧ writes ≠ []
  | .release => Filled bufSize cnt
  | .failed => False
  | _ => True

/-- The writer has handed over a block and may come to the end. -/
def WriterPc.Waits (wpc : WriterPc) : Prop := wpc = .testCnt ∨ wpc = .lastReserve

/-- The reader has not used the semaphores yet. -/
def ReaderPc.Starts (rpc : ReaderPc) : Prop :=
  rpc = .semget ∨ rpc = .shmget ∨ rpc = .shmat ∨ rpc = .noObjects

/-- The reader has seen the end of the file. -/
def ReaderPc.Done (rpc : ReaderPc) : Prop := rpc = .shmdt ∨ rpc = .lastRelease ∨ rpc = .exited

/-- The bytes of `buf` that `cnt` counts. -/
def Shmseg.block (seg : Shmseg bufSize) : List UInt8 := seg.buf.take seg.cnt.toNat

/-- What the writer has read and not handed over. -/
def writerHas (wpc : WriterPc) (seg : Shmseg bufSize) : List UInt8 :=
  match wpc with
  | .storeCnt n => seg.buf.take n.toNat
  | .testError => seg.block
  | .release => seg.block
  | _ => []

/-- What is handed over and not taken. -/
def handed (sems : Sems) (seg : Shmseg bufSize) : List UInt8 :=
  if sems.read = 0 then [] else seg.block

/-- What the reader has taken and not written. -/
def readerHas (rpc : ReaderPc) (seg : Shmseg bufSize) : List UInt8 :=
  match rpc with
  | .testCnt => seg.block
  | .addBytes => seg.block
  | .write => seg.block
  | .testWrite n => seg.block.drop n.toNat
  | .writeFailed n => seg.block.drop n.toNat
  | _ => []

/-- Both processes use the semaphores and the segment. -/
structure Running (reads : List (Read bufSize)) (writes : List (Option Nat)) (s : Sys bufSize)
    (sems : Sems) (seg : Shmseg bufSize) : Prop where
  sems_eq : s.sems = some sems
  shm_eq : s.shm = some seg
  turn : sems.write + sems.read + s.wpc.turn + s.rpc.turn = 1
  writer : WriterFits s.wpc sems.write seg.cnt s.stdin
  reader : ReaderFits bufSize writes s.rpc seg.cnt
  consumed : ∃ blocks : List (Block bufSize), reads = blocks.map .block ++ s.stdin
  complete : writes = [] → s.writes = []
  starts : s.rpc.Starts → s.stdout = []
  done : s.rpc.Done → seg.cnt = 0 ∧ (s.wpc.Waits ∨ s.wpc = .semctl)
  exited : s.rpc = .exited → sems.read = 0
  last : s.wpc = .semctl ∨ (s.wpc.Waits ∧ seg.cnt = 0 ∧ sems.write = 1) → s.rpc = .exited
  bytes : s.stdout ++ readerHas s.rpc seg ++ handed sems seg ++ writerHas s.wpc seg
    ++ bytesOf s.stdin = bytesOf reads

/-- The writer has removed the semaphores. -/
structure Removed (reads : List (Read bufSize)) (s : Sys bufSize) : Prop where
  sems_eq : s.sems = none
  wpc : (s.wpc = .shmdt ∨ s.wpc = .shmctl) ∧ s.shm.isSome ∨ s.wpc = .exited ∧ s.shm = none
  rpc : s.rpc = .exited
  stdin : s.stdin = []
  no_failed : .failed ∉ reads
  bytes : s.stdout = bytesOf reads

end Invariant

section Steps

variable {bufSize : Nat} {reads : List (Read bufSize)} {writes : List (Option Nat)}
  {s s' : Sys bufSize} {sems : Sems} {seg : Shmseg bufSize}

/-- Only a reader with the turn depends on the segment. -/
theorem readerFits_of_turn {rpc : ReaderPc} {cnt : Int} (hturn : rpc.turn = 0)
    (h : ReaderFits bufSize writes rpc cnt) (cnt' : Int) :
    ReaderFits bufSize writes rpc cnt' := by
  cases rpc with
  | failed => exact h
  | addBytes => cases hturn
  | write => cases hturn
  | testWrite n => cases hturn
  | writeFailed n => cases hturn
  | release => cases hturn
  | _ => trivial

theorem readerHas_of_turn {rpc : ReaderPc} (hturn : rpc.turn = 0) (seg : Shmseg bufSize) :
    readerHas rpc seg = [] := by
  cases rpc with
  | testCnt => cases hturn
  | addBytes => cases hturn
  | write => cases hturn
  | testWrite n => cases hturn
  | writeFailed n => cases hturn
  | _ => rfl

/-- The reader is not done while the writer has more to hand over. -/
theorem Running.not_done (h : Running reads writes s sems seg) (hwaits : ¬ s.wpc.Waits)
    (hsemctl : s.wpc ≠ .semctl) : ¬ s.rpc.Done :=
  fun hdone => (h.done hdone).2.elim hwaits hsemctl

/-- The writer goes on without touching what is shared. -/
theorem Running.writerMoves (h : Running reads writes s sems seg) {old : WriterPc}
    (hpc : s.wpc = old) (wpc : WriterPc) (hturn : wpc.turn = old.turn)
    (hwriter : WriterFits wpc sems.write seg.cnt s.stdin)
    (hhas : writerHas wpc seg = writerHas old seg)
    (hdone : s.rpc.Done → wpc.Waits)
    (hlast : wpc ≠ .semctl ∧ (wpc.Waits → seg.cnt = 0 → sems.write = 1 → s.rpc = .exited))
    (wxfrs wbytes : Nat) : Running reads writes { s with wpc, wxfrs, wbytes } sems seg where
  sems_eq := h.sems_eq
  shm_eq := h.shm_eq
  turn := by
    rw [hturn, ← hpc]
    exact h.turn
  writer := hwriter
  reader := h.reader
  consumed := h.consumed
  complete := h.complete
  starts := h.starts
  done := fun hd => ⟨(h.done hd).1, .inl (hdone hd)⟩
  exited := h.exited
  last := by
    rintro (hsemctl | ⟨hwaits, hcnt, hwrite⟩)
    · exact absurd hsemctl hlast.1
    · exact hlast.2 hwaits hcnt hwrite
  bytes := by
    rw [hhas, ← hpc]
    exact h.bytes

/-- A move between places at which the reader is not done. -/
theorem Running.writerGoes (h : Running reads writes s sems seg) {old : WriterPc}
    (hpc : s.wpc = old) (hold : ¬ old.Waits ∧ old ≠ .semctl) (wpc : WriterPc)
    (hnew : ¬ wpc.Waits ∧ wpc ≠ .semctl) (hturn : wpc.turn = old.turn)
    (hwriter : WriterFits wpc sems.write seg.cnt s.stdin)
    (hhas : writerHas wpc seg = writerHas old seg) (wxfrs wbytes : Nat) :
    Running reads writes { s with wpc, wxfrs, wbytes } sems seg := by
  have hnotDone : ¬ s.rpc.Done := h.not_done (by rw [hpc]; exact hold.1) (by rw [hpc]; exact hold.2)
  exact h.writerMoves hpc wpc hturn hwriter hhas (fun hd => absurd hd hnotDone)
    ⟨hnew.2, fun hwaits => absurd hwaits hnew.1⟩ wxfrs wbytes

theorem writerAccess_ok (hshm : s.shm = some seg) {access : Shmseg bufSize → Sys bufSize}
    (hstep : s.writerAccess access = .ok s') : s' = access seg := by
  rw [Sys.writerAccess, hshm] at hstep
  exact (Except.ok.inj hstep).symm

/-- A call of `reserveSem` that returns has found a turn. -/
theorem writerReserve_ok (hsems : s.sems = some sems) {num : SemNum} {wpc : WriterPc}
    (hstep : s.writerSemop (reserveSem s.sems num) wpc = .ok s') :
    sems.get num ≠ 0 ∧ s' = { s with sems := some (sems.set num (sems.get num - 1)), wpc } := by
  rw [hsems, reserveSem] at hstep
  by_cases hzero : sems.get num = 0
  · rw [if_pos hzero] at hstep
    cases hstep
  · rw [if_neg hzero] at hstep
    exact ⟨hzero, (Except.ok.inj hstep).symm⟩

theorem writerRelease_ok (hsems : s.sems = some sems) {num : SemNum} {wpc : WriterPc}
    (hlt : sems.get num < semvmx)
    (hstep : s.writerSemop (releaseSem s.sems num) wpc = .ok s') :
    s' = { s with sems := some (sems.set num (sems.get num + 1)), wpc } := by
  rw [hsems, releaseSem, if_pos hlt] at hstep
  exact (Except.ok.inj hstep).symm

/-- `read` into the segment. -/
theorem Running.readStdin (h : Running reads writes s sems seg) (hpc : s.wpc = .read) :
    ∃ seg', Running reads writes (s.readStdin seg) sems seg' := by
  have hturn := h.turn
  have hbytes := h.bytes
  have hnotDone := h.not_done (by simp [hpc, WriterPc.Waits]) (by simp [hpc])
  rw [hpc] at hturn hbytes
  cases hstdin : s.stdin with
  | nil =>
      have hread : s.readStdin seg = { s with wpc := .storeCnt 0 } := by
        simp only [Sys.readStdin, hstdin]
      rw [hread]
      exact ⟨seg, h.writerGoes hpc (by simp [WriterPc.Waits]) (.storeCnt 0)
        (by simp [WriterPc.Waits]) rfl (.inr (.inl ⟨rfl, hstdin⟩)) rfl _ _⟩
  | cons read stdin =>
      cases read with
      | failed =>
          have hread : s.readStdin seg = { s with wpc := .storeCnt (-1) } := by
            simp only [Sys.readStdin, hstdin]
          rw [hread]
          exact ⟨seg, h.writerGoes hpc (by simp [WriterPc.Waits]) (.storeCnt (-1))
            (by simp [WriterPc.Waits]) rfl (.inl ⟨rfl, stdin, hstdin⟩) rfl _ _⟩
      | block b =>
          have hread : s.readStdin seg =
              { s with shm := some (seg.fill b), stdin, wpc := .storeCnt b.bytes.length } := by
            simp only [Sys.readStdin, hstdin]
          rw [hread]
          rw [WriterPc.turn] at hturn
          have hpos := b.pos
          have hle := b.le
          have hreader : s.rpc.turn = 0 := by omega
          have hhanded : handed sems seg = [] := if_pos (by omega)
          have hhanded' : handed sems (seg.fill b) = [] := if_pos (by omega)
          have hblock : writerHas (.storeCnt b.bytes.length) (seg.fill b) = b.bytes :=
            List.take_left' rfl
          have hconsumed : ∃ blocks : List (Block bufSize), reads = blocks.map .block ++ stdin := by
            obtain ⟨blocks, hblocks⟩ := h.consumed
            refine ⟨blocks ++ [b], ?_⟩
            rw [hblocks, hstdin, List.map_append, List.append_assoc]
            rfl
          refine ⟨seg.fill b, h.sems_eq, rfl, hturn, .inr (.inr ⟨by omega, by omega⟩), h.reader,
            hconsumed, h.complete, h.starts, fun hd => absurd hd hnotDone, h.exited,
            by simp [WriterPc.Waits], ?_⟩
          rw [hstdin, bytesOf, readerHas_of_turn hreader, hhanded] at hbytes
          rw [readerHas_of_turn hreader, hhanded', hblock, ← hbytes]
          simp [writerHas]

theorem Running.writerShmat (h : Running reads writes s sems seg)
    (hpc : s.wpc = .shmat) (hstep : SvShm.writerStep s = .ok s') :
    ∃ sems' seg', Running reads writes s' sems' seg' := by
  have hwriter := h.writer
  rw [SvShm.writerStep] at hstep
  rw [hpc] at hstep hwriter
  obtain rfl := writerAccess_ok h.shm_eq hstep
  exact ⟨sems, seg, h.writerGoes hpc (by simp [WriterPc.Waits]) .reserve
    (by simp [WriterPc.Waits]) rfl (.inl hwriter) rfl _ _⟩

/-- The writer gets the turn. -/
theorem Running.writerReserve (h : Running reads writes s sems seg)
    (hpc : s.wpc = .reserve) (hstep : SvShm.writerStep s = .ok s') :
    ∃ sems' seg', Running reads writes s' sems' seg' := by
  have hturn := h.turn
  have hbytes := h.bytes
  rw [SvShm.writerStep] at hstep
  rw [hpc] at hstep hturn hbytes
  obtain ⟨hturn', rfl⟩ := writerReserve_ok h.sems_eq hstep
  have hnotDone := h.not_done (by simp [hpc, WriterPc.Waits]) (by simp [hpc])
  refine ⟨_, seg, rfl, h.shm_eq, ?_, trivial, h.reader, h.consumed, h.complete, h.starts,
    fun hd => absurd hd hnotDone, h.exited, by simp [WriterPc.Waits], hbytes⟩
  simp only [WriterPc.turn, Sems.set, Sems.get] at hturn' hturn ⊢
  omega

/-- `cnt` changes while the writer has the turn. -/
theorem Running.writerStoreCnt (h : Running reads writes s sems seg) {n : Int}
    (hpc : s.wpc = .storeCnt n) (hstep : SvShm.writerStep s = .ok s') :
    ∃ sems' seg', Running reads writes s' sems' seg' := by
  have hturn := h.turn
  have hwriter := h.writer
  have hbytes := h.bytes
  rw [SvShm.writerStep] at hstep
  rw [hpc] at hstep hturn hwriter hbytes
  obtain rfl := writerAccess_ok h.shm_eq hstep
  have hnotDone := h.not_done (by simp [hpc, WriterPc.Waits]) (by simp [hpc])
  rw [WriterPc.turn] at hturn
  have hreader : s.rpc.turn = 0 := by omega
  have hhanded : handed sems seg = [] := if_pos (by omega)
  have hhanded' : handed sems { seg with cnt := n } = [] := if_pos (by omega)
  refine ⟨sems, { seg with cnt := n }, h.sems_eq, rfl, hturn, hwriter,
    readerFits_of_turn hreader h.reader n, h.consumed, h.complete, h.starts,
    fun hd => absurd hd hnotDone, h.exited, by simp [WriterPc.Waits], ?_⟩
  rw [readerHas_of_turn hreader, hhanded] at hbytes
  rw [readerHas_of_turn hreader, hhanded']
  exact hbytes

/-- A failed `read` ends the writer, with the turn. -/
theorem Running.writerTestError (h : Running reads writes s sems seg)
    (hpc : s.wpc = .testError) (hstep : SvShm.writerStep s = .ok s') :
    ∃ sems' seg', Running reads writes s' sems' seg' := by
  have hwriter := h.writer
  rw [SvShm.writerStep] at hstep
  rw [hpc] at hstep hwriter
  obtain rfl := writerAccess_ok h.shm_eq hstep
  by_cases hfailed : seg.cnt = -1
  · rw [if_pos hfailed]
    have hnothing : writerHas .testError seg = [] := by
      rw [writerHas, Shmseg.block, hfailed]
      rfl
    refine ⟨sems, seg, h.writerGoes hpc (by simp [WriterPc.Waits]) .readFailed
      (by simp [WriterPc.Waits]) rfl ⟨hfailed, ?_⟩ hnothing.symm _ _⟩
    rcases hwriter with ⟨-, hreads⟩ | ⟨hzero, -⟩ | ⟨hpos, -⟩
    · exact hreads
    · omega
    · omega
  · rw [if_neg hfailed]
    refine ⟨sems, seg, h.writerGoes hpc (by simp [WriterPc.Waits]) .release
      (by simp [WriterPc.Waits]) rfl ?_ rfl _ _⟩
    exact hwriter.resolve_left fun hfail => hfailed hfail.1

/-- The block is handed over. -/
theorem Running.writerRelease (h : Running reads writes s sems seg)
    (hpc : s.wpc = .release) (hstep : SvShm.writerStep s = .ok s') :
    ∃ sems' seg', Running reads writes s' sems' seg' := by
  have hturn := h.turn
  have hwriter := h.writer
  have hbytes := h.bytes
  rw [SvShm.writerStep] at hstep
  rw [hpc] at hstep hturn hwriter hbytes
  have hnotDone := h.not_done (by simp [hpc, WriterPc.Waits]) (by simp [hpc])
  rw [WriterPc.turn] at hturn
  have hread : sems.read = 0 := by omega
  obtain rfl := writerRelease_ok h.sems_eq (by rw [Sems.get, hread]; decide) hstep
  refine ⟨_, seg, rfl, h.shm_eq, ?_, hwriter, h.reader, h.consumed, h.complete, h.starts,
    fun hd => absurd hd hnotDone, ?_, ?_, ?_⟩
  · simp only [WriterPc.turn, Sems.set, Sems.get]
    omega
  · intro hexited
    exact absurd (.inr (.inr hexited)) hnotDone
  · rintro (hsemctl | ⟨-, -, hwrite⟩)
    · cases hsemctl
    · simp only [Sems.set] at hwrite
      omega
  · rw [← hbytes, handed, handed, if_pos hread, if_neg (by simp [Sems.set])]
    simp [writerHas]

/-- Behind its `releaseSem` the writer still finds the `cnt` that it has stored. -/
theorem Running.writerTestCnt (h : Running reads writes s sems seg)
    (hpc : s.wpc = .testCnt) (hstep : SvShm.writerStep s = .ok s') :
    ∃ sems' seg', Running reads writes s' sems' seg' := by
  have hwriter := h.writer
  rw [SvShm.writerStep] at hstep
  rw [hpc] at hstep hwriter
  obtain rfl := writerAccess_ok h.shm_eq hstep
  by_cases hzero : seg.cnt = 0
  · rw [if_pos hzero]
    refine ⟨sems, seg, h.writerMoves hpc .lastReserve rfl ?_ rfl
      (fun _ => .inr rfl) ⟨by simp, fun _ hcnt hwrite => ?_⟩ _ _⟩
    · refine hwriter.resolve_right fun hfilled => ?_
      have hpos := hfilled.1
      omega
    · exact h.last (.inr ⟨.inl hpc, hcnt, hwrite⟩)
  · rw [if_neg hzero]
    exact ⟨sems, seg, h.writerMoves hpc .next rfl
      (hwriter.resolve_left fun hend => hzero hend.1) rfl
      (fun hd => absurd (h.done hd).1 hzero) ⟨by simp, by simp [WriterPc.Waits]⟩ _ _⟩

theorem Running.writerNext (h : Running reads writes s sems seg)
    (hpc : s.wpc = .next) (hstep : SvShm.writerStep s = .ok s') :
    ∃ sems' seg', Running reads writes s' sems' seg' := by
  have hwriter := h.writer
  rw [SvShm.writerStep] at hstep
  rw [hpc] at hstep hwriter
  obtain rfl := writerAccess_ok h.shm_eq hstep
  exact ⟨sems, seg, h.writerGoes hpc (by simp [WriterPc.Waits]) .reserve
    (by simp [WriterPc.Waits]) rfl (.inr hwriter) rfl _ _⟩

/-- The turn comes back from a reader that is past its last use of it. -/
theorem Running.writerLastReserve (h : Running reads writes s sems seg)
    (hpc : s.wpc = .lastReserve) (hstep : SvShm.writerStep s = .ok s') :
    ∃ sems' seg', Running reads writes s' sems' seg' := by
  have hturn := h.turn
  have hwriter := h.writer
  have hbytes := h.bytes
  rw [SvShm.writerStep] at hstep
  rw [hpc] at hstep hturn hwriter hbytes
  obtain ⟨hturn', rfl⟩ := writerReserve_ok h.sems_eq hstep
  simp only [WriterPc.turn, Sems.get] at hturn' hturn
  have hexited : s.rpc = .exited := h.last (.inr ⟨.inr hpc, hwriter.1, by omega⟩)
  refine ⟨_, seg, rfl, h.shm_eq, ?_, hwriter, h.reader, h.consumed, h.complete, h.starts,
    fun _ => ⟨hwriter.1, .inr rfl⟩, h.exited, fun _ => hexited, hbytes⟩
  simp only [WriterPc.turn, Sems.set, Sems.get]
  omega

/-- Nobody uses the semaphores any more when they are removed. -/
theorem Running.writerSemctl (h : Running reads writes s sems seg)
    (hpc : s.wpc = .semctl) (hstep : SvShm.writerStep s = .ok s') :
    Removed reads s' := by
  have hwriter := h.writer
  have hbytes := h.bytes
  rw [SvShm.writerStep] at hstep
  rw [hpc] at hwriter hbytes
  have hexited : s.rpc = .exited := h.last (.inl hpc)
  rw [hpc, h.sems_eq] at hstep
  obtain rfl := Except.ok.inj hstep
  refine ⟨rfl, .inl ⟨.inl rfl, by rw [h.shm_eq]; rfl⟩, hexited, hwriter.2, ?_, ?_⟩
  · obtain ⟨blocks, hblocks⟩ := h.consumed
    rw [hblocks, hwriter.2]
    simp
  · rw [hwriter.2, hexited, handed, if_pos (h.exited hexited)] at hbytes
    simpa [readerHas, writerHas, bytesOf] using hbytes

/-- A step of the writer, as long as the semaphores are there. -/
theorem Running.writerStep (h : Running reads writes s sems seg) (hstep : writerStep s = .ok s') :
    (∃ sems' seg', Running reads writes s' sems' seg') ∨ Removed reads s' := by
  have hwriter := h.writer
  cases hpc : s.wpc with
  | shmat => exact .inl (h.writerShmat hpc hstep)
  | reserve => exact .inl (h.writerReserve hpc hstep)
  | read =>
      rw [SvShm.writerStep, hpc] at hstep
      obtain rfl := writerAccess_ok h.shm_eq hstep
      obtain ⟨seg', h'⟩ := h.readStdin hpc
      exact .inl ⟨sems, seg', h'⟩
  | storeCnt n => exact .inl (h.writerStoreCnt hpc hstep)
  | testError => exact .inl (h.writerTestError hpc hstep)
  | release => exact .inl (h.writerRelease hpc hstep)
  | testCnt => exact .inl (h.writerTestCnt hpc hstep)
  | next => exact .inl (h.writerNext hpc hstep)
  | lastReserve => exact .inl (h.writerLastReserve hpc hstep)
  | semctl => exact .inr (h.writerSemctl hpc hstep)
  | readFailed =>
      rw [SvShm.writerStep, hpc] at hstep
      cases hstep
  | _ =>
      rw [hpc] at hwriter
      exact hwriter.elim

/-- The reader goes on without touching what is shared. -/
theorem Running.readerMoves (h : Running reads writes s sems seg) {old : ReaderPc}
    (hpc : s.rpc = old) (hold : old ≠ .exited) (rpc : ReaderPc) (hturn : rpc.turn = old.turn)
    (hreader : ReaderFits bufSize writes rpc seg.cnt) (hstarts : rpc.Starts → s.stdout = [])
    (hdone : rpc.Done → seg.cnt = 0 ∧ (s.wpc.Waits ∨ s.wpc = .semctl)) (hexited : rpc ≠ .exited)
    (hhas : readerHas rpc seg = readerHas old seg) (rxfrs rbytes : Nat) :
    Running reads writes { s with rpc, rxfrs, rbytes } sems seg where
  sems_eq := h.sems_eq
  shm_eq := h.shm_eq
  turn := by
    rw [hturn, ← hpc]
    exact h.turn
  writer := h.writer
  reader := hreader
  consumed := h.consumed
  complete := h.complete
  starts := hstarts
  done := hdone
  exited := fun he => absurd he hexited
  last := fun hl => absurd (hpc.symm.trans (h.last hl)) hold
  bytes := by
    rw [hhas, ← hpc]
    exact h.bytes

theorem readerAccess_ok (hshm : s.shm = some seg) {access : Shmseg bufSize → Sys bufSize}
    (hstep : s.readerAccess access = .ok s') : s' = access seg := by
  rw [Sys.readerAccess, hshm] at hstep
  exact (Except.ok.inj hstep).symm

theorem readerReserve_ok (hsems : s.sems = some sems) {num : SemNum} {rpc : ReaderPc}
    (hstep : s.readerSemop (reserveSem s.sems num) rpc = .ok s') :
    sems.get num ≠ 0 ∧ s' = { s with sems := some (sems.set num (sems.get num - 1)), rpc } := by
  rw [hsems, reserveSem] at hstep
  by_cases hzero : sems.get num = 0
  · rw [if_pos hzero] at hstep
    cases hstep
  · rw [if_neg hzero] at hstep
    exact ⟨hzero, (Except.ok.inj hstep).symm⟩

theorem readerRelease_ok (hsems : s.sems = some sems) {num : SemNum} {rpc : ReaderPc}
    (hlt : sems.get num < semvmx)
    (hstep : s.readerSemop (releaseSem s.sems num) rpc = .ok s') :
    s' = { s with sems := some (sems.set num (sems.get num + 1)), rpc } := by
  rw [hsems, releaseSem, if_pos hlt] at hstep
  exact (Except.ok.inj hstep).symm

/-- A writer without the turn has handed over a block, or the end of the file. -/
theorem writerFits_handed {wpc : WriterPc} {cnt : Int} {stdin : List (Read bufSize)}
    (h : WriterFits wpc 0 cnt stdin) (hturn : wpc.turn = 0) :
    (cnt = 0 ∧ wpc.Waits) ∨ Filled bufSize cnt := by
  cases wpc with
  | shmat => cases h
  | reserve => exact .inr (h.resolve_left Nat.zero_ne_one)
  | testCnt => exact h.imp_left fun hend => ⟨hend.1, .inl rfl⟩
  | next => exact .inr h
  | lastReserve => exact .inl ⟨h.1, .inr rfl⟩
  | read => cases hturn
  | storeCnt n => cases hturn
  | testError => cases hturn
  | release => cases hturn
  | semctl => cases hturn
  | readFailed => cases hturn
  | _ => exact h.elim

/-- A writer that waits goes on waiting when it gets the turn. -/
theorem writerFits_turn {wpc : WriterPc} {writeSem : Nat} {cnt : Int} {stdin : List (Read bufSize)}
    (h : WriterFits wpc writeSem cnt stdin) : WriterFits wpc 1 cnt stdin := by
  cases wpc with
  | shmat => rfl
  | reserve => exact .inl rfl
  | _ => exact h

/-- `write` takes some of the block. -/
theorem Running.writesSome (h : Running reads writes s sems seg) (hpc : s.rpc = .write)
    {m : Nat} {n : Int} (hm : m ≤ seg.cnt.toNat) (hn : n ≤ seg.cnt) (hmn : n.toNat = m)
    (writes' : List (Option Nat)) (hcomplete : writes = [] → writes' = [] ∧ n = seg.cnt) :
    Running reads writes
      { s with stdout := s.stdout ++ seg.buf.take m, writes := writes', rpc := .testWrite n }
      sems seg where
  sems_eq := h.sems_eq
  shm_eq := h.shm_eq
  turn := by
    have hturn := h.turn
    rw [hpc] at hturn
    exact hturn
  writer := h.writer
  reader := by
    have hfilled := h.reader
    rw [hpc] at hfilled
    exact ⟨hfilled, hn, fun hwrites => (hcomplete hwrites).2⟩
  consumed := h.consumed
  complete := fun hwrites => (hcomplete hwrites).1
  starts := by simp [ReaderPc.Starts]
  done := by simp [ReaderPc.Done]
  exited := fun he => by cases he
  last := fun hl => by
    have he := h.last hl
    rw [hpc] at he
    cases he
  bytes := by
    have hbytes := h.bytes
    have htake : seg.buf.take m = seg.block.take m := by
      rw [Shmseg.block, List.take_take, Nat.min_eq_left hm]
    have hblock : seg.buf.take m ++ readerHas (.testWrite n) seg = readerHas .write seg := by
      rw [readerHas, readerHas, hmn, htake, List.take_append_drop]
    rw [hpc, ← hblock] at hbytes
    rw [← hbytes]
    simp only [List.append_assoc]

theorem Running.writeStdout (h : Running reads writes s sems seg) (hpc : s.rpc = .write) :
    Running reads writes (s.writeStdout seg) sems seg := by
  have hfilled := h.reader
  rw [hpc] at hfilled
  have hpos := hfilled.1
  cases hwrites : s.writes with
  | nil =>
      have hwrite : s.writeStdout seg =
          { s with
            stdout := s.stdout ++ seg.buf.take seg.cnt.toNat, rpc := .testWrite seg.cnt } := by
        simp only [Sys.writeStdout, hwrites]
      rw [hwrite]
      exact h.writesSome hpc (Nat.le_refl _) (Int.le_refl _) rfl s.writes fun _ => ⟨hwrites, rfl⟩
  | cons write rest =>
      -- a result was listed, so the list at the start was not empty
      have hlisted : writes = [] → rest = [] ∧ ∀ n : Int, n = seg.cnt := by
        intro hnil
        have hnone := h.complete hnil
        rw [hwrites] at hnone
        cases hnone
      cases write with
      | none =>
          have hwrite : s.writeStdout seg =
              { s with stdout := s.stdout ++ seg.buf.take 0, writes := rest
                       rpc := .testWrite (-1) } := by
            simp only [Sys.writeStdout, hwrites, List.take_zero, List.append_nil]
          rw [hwrite]
          exact h.writesSome hpc (Nat.zero_le _) (by omega) rfl rest
            fun hnil => ⟨(hlisted hnil).1, (hlisted hnil).2 _⟩
      | some n =>
          have hwrite : s.writeStdout seg =
              { s with
                stdout := s.stdout ++ seg.buf.take (min n seg.cnt.toNat), writes := rest
                rpc := .testWrite (min n seg.cnt.toNat : Nat) } := by
            simp only [Sys.writeStdout, hwrites]
          rw [hwrite]
          exact h.writesSome hpc (Nat.min_le_right _ _) (by omega) (Int.toNat_natCast _) rest
            fun hnil => ⟨(hlisted hnil).1, (hlisted hnil).2 _⟩

theorem Running.readerSemget (h : Running reads writes s sems seg)
    (hpc : s.rpc = .semget) (hstep : SvShm.readerStep s = .ok s') :
    ∃ sems', Running reads writes s' sems' seg := by
  rw [SvShm.readerStep] at hstep
  rw [hpc] at hstep
  obtain rfl := Except.ok.inj hstep
  rw [if_pos (by rw [h.sems_eq]; rfl)]
  exact ⟨sems, h.readerMoves hpc (by simp) .shmget rfl trivial
    (fun _ => h.starts (.inl hpc)) (by simp [ReaderPc.Done]) (by simp) rfl _ _⟩

theorem Running.readerShmget (h : Running reads writes s sems seg)
    (hpc : s.rpc = .shmget) (hstep : SvShm.readerStep s = .ok s') :
    ∃ sems', Running reads writes s' sems' seg := by
  rw [SvShm.readerStep] at hstep
  rw [hpc] at hstep
  obtain rfl := Except.ok.inj hstep
  rw [if_pos (by rw [h.shm_eq]; rfl)]
  exact ⟨sems, h.readerMoves hpc (by simp) .shmat rfl trivial
    (fun _ => h.starts (.inr (.inl hpc))) (by simp [ReaderPc.Done]) (by simp) rfl _ _⟩

theorem Running.readerShmat (h : Running reads writes s sems seg)
    (hpc : s.rpc = .shmat) (hstep : SvShm.readerStep s = .ok s') :
    ∃ sems', Running reads writes s' sems' seg := by
  rw [SvShm.readerStep] at hstep
  rw [hpc] at hstep
  obtain rfl := readerAccess_ok h.shm_eq hstep
  exact ⟨sems, h.readerMoves hpc (by simp) .reserve rfl trivial (by simp [ReaderPc.Starts])
    (by simp [ReaderPc.Done]) (by simp) rfl _ _⟩

/-- The reader gets the turn, and with it what was handed over. -/
theorem Running.readerReserve (h : Running reads writes s sems seg)
    (hpc : s.rpc = .reserve) (hstep : SvShm.readerStep s = .ok s') :
    ∃ sems', Running reads writes s' sems' seg := by
  have hturn := h.turn
  have hbytes := h.bytes
  rw [SvShm.readerStep] at hstep
  rw [hpc] at hstep hturn hbytes
  obtain ⟨hturn', rfl⟩ := readerReserve_ok h.sems_eq hstep
  simp only [ReaderPc.turn, Sems.get] at hturn' hturn
  have hread : sems.read = 1 := by omega
  refine ⟨_, rfl, h.shm_eq, ?_, h.writer, trivial, h.consumed, h.complete,
    by simp [ReaderPc.Starts], by simp [ReaderPc.Done], by simp, fun hl => ?_, ?_⟩
  · simp only [ReaderPc.turn, Sems.set, Sems.get]
    omega
  · have he := h.last hl
    rw [hpc] at he
    cases he
  · rw [← hbytes, handed, handed, if_pos (by simp [Sems.set, Sems.get, hread]),
      if_neg (by omega)]
    simp [readerHas]

/-- Whoever handed over the turn has left a block, or the end of the file. -/
theorem Running.readerTestCnt (h : Running reads writes s sems seg)
    (hpc : s.rpc = .testCnt) (hstep : SvShm.readerStep s = .ok s') :
    ∃ sems', Running reads writes s' sems' seg := by
  have hturn := h.turn
  rw [SvShm.readerStep] at hstep
  rw [hpc] at hstep hturn
  obtain rfl := readerAccess_ok h.shm_eq hstep
  simp only [ReaderPc.turn] at hturn
  have hwriter := h.writer
  rw [show sems.write = 0 by omega] at hwriter
  have hhanded := writerFits_handed hwriter (by omega)
  by_cases hzero : seg.cnt = 0
  · rw [if_pos hzero]
    have hwaits : s.wpc.Waits := by
      rcases hhanded with ⟨-, hwaits⟩ | ⟨hpos, -⟩
      · exact hwaits
      · omega
    have hnothing : readerHas .testCnt seg = [] := by
      rw [readerHas, Shmseg.block, hzero]
      rfl
    exact ⟨sems, h.readerMoves hpc (by simp) .shmdt rfl trivial (by simp [ReaderPc.Starts])
      (fun _ => ⟨hzero, .inl hwaits⟩) (by simp) hnothing.symm _ _⟩
  · rw [if_neg hzero]
    exact ⟨sems, h.readerMoves hpc (by simp) .addBytes rfl
      (hhanded.resolve_left fun hend => hzero hend.1) (by simp [ReaderPc.Starts])
      (by simp [ReaderPc.Done]) (by simp) rfl _ _⟩

theorem Running.readerAddBytes (h : Running reads writes s sems seg)
    (hpc : s.rpc = .addBytes) (hstep : SvShm.readerStep s = .ok s') :
    ∃ sems', Running reads writes s' sems' seg := by
  have hreader := h.reader
  rw [SvShm.readerStep] at hstep
  rw [hpc] at hstep hreader
  obtain rfl := readerAccess_ok h.shm_eq hstep
  exact ⟨sems, h.readerMoves hpc (by simp) .write rfl hreader (by simp [ReaderPc.Starts])
    (by simp [ReaderPc.Done]) (by simp) rfl _ _⟩

/-- What `write` did not take is left to the reader for good. -/
theorem Running.readerTestWrite (h : Running reads writes s sems seg) {n : Int}
    (hpc : s.rpc = .testWrite n) (hstep : SvShm.readerStep s = .ok s') :
    ∃ sems', Running reads writes s' sems' seg := by
  have hreader := h.reader
  rw [SvShm.readerStep] at hstep
  rw [hpc] at hstep hreader
  obtain rfl := readerAccess_ok h.shm_eq hstep
  by_cases hall : n = seg.cnt
  · rw [if_pos hall]
    have hnothing : readerHas (.testWrite n) seg = [] := by
      rw [readerHas, hall]
      exact List.drop_eq_nil_of_le (List.length_take_le _ _)
    exact ⟨sems, h.readerMoves hpc (by simp) .release rfl hreader.1 (by simp [ReaderPc.Starts])
      (by simp [ReaderPc.Done]) (by simp) hnothing.symm _ _⟩
  · rw [if_neg hall]
    have hle := hreader.2.1
    exact ⟨sems, h.readerMoves hpc (by simp) (.writeFailed n) rfl
      ⟨by omega, fun hnil => hall (hreader.2.2 hnil)⟩
      (by simp [ReaderPc.Starts]) (by simp [ReaderPc.Done]) (by simp) rfl _ _⟩

/-- The reader gives the turn back. -/
theorem Running.readerRelease (h : Running reads writes s sems seg)
    (hpc : s.rpc = .release) (hstep : SvShm.readerStep s = .ok s') :
    ∃ sems', Running reads writes s' sems' seg := by
  have hturn := h.turn
  have hreader := h.reader
  have hbytes := h.bytes
  rw [SvShm.readerStep] at hstep
  rw [hpc] at hstep hturn hreader hbytes
  simp only [ReaderPc.turn] at hturn
  have hwrite : sems.write = 0 := by omega
  obtain rfl := readerRelease_ok h.sems_eq (by rw [Sems.get, hwrite]; decide) hstep
  refine ⟨_, rfl, h.shm_eq, ?_, ?_, trivial, h.consumed, h.complete, by simp [ReaderPc.Starts],
    by simp [ReaderPc.Done], by simp, ?_, hbytes⟩
  · simp only [ReaderPc.turn, Sems.set, Sems.get]
    omega
  · simp only [Sems.set, Sems.get, hwrite]
    exact writerFits_turn h.writer
  · have hpos := hreader.1
    rintro (hsemctl | ⟨-, hzero, -⟩)
    · have he := h.last (.inl hsemctl)
      rw [hpc] at he
      cases he
    · omega

theorem Running.readerNext (h : Running reads writes s sems seg)
    (hpc : s.rpc = .next) (hstep : SvShm.readerStep s = .ok s') :
    ∃ sems', Running reads writes s' sems' seg := by
  rw [SvShm.readerStep] at hstep
  rw [hpc] at hstep
  obtain rfl := Except.ok.inj hstep
  exact ⟨sems, h.readerMoves hpc (by simp) .reserve rfl trivial (by simp [ReaderPc.Starts])
    (by simp [ReaderPc.Done]) (by simp) rfl _ _⟩

theorem Running.readerShmdt (h : Running reads writes s sems seg)
    (hpc : s.rpc = .shmdt) (hstep : SvShm.readerStep s = .ok s') :
    ∃ sems', Running reads writes s' sems' seg := by
  rw [SvShm.readerStep] at hstep
  rw [hpc] at hstep
  obtain rfl := Except.ok.inj hstep
  exact ⟨sems, h.readerMoves hpc (by simp) .lastRelease rfl trivial (by simp [ReaderPc.Starts])
    (fun _ => h.done (.inl hpc)) (by simp) rfl _ _⟩

/-- The last turn goes to a writer that waits for it. -/
theorem Running.readerLastRelease (h : Running reads writes s sems seg)
    (hpc : s.rpc = .lastRelease) (hstep : SvShm.readerStep s = .ok s') :
    ∃ sems', Running reads writes s' sems' seg := by
  have hturn := h.turn
  have hbytes := h.bytes
  rw [SvShm.readerStep] at hstep
  rw [hpc] at hstep hturn hbytes
  simp only [ReaderPc.turn] at hturn
  have hwrite : sems.write = 0 := by omega
  obtain rfl := readerRelease_ok h.sems_eq (by rw [Sems.get, hwrite]; decide) hstep
  refine ⟨_, rfl, h.shm_eq, ?_, ?_, trivial, h.consumed, h.complete, by simp [ReaderPc.Starts],
    fun _ => h.done (.inr (.inl hpc)), fun _ => ?_, fun _ => rfl, hbytes⟩
  · simp only [ReaderPc.turn, Sems.set, Sems.get]
    omega
  · simp only [Sems.set, Sems.get, hwrite]
    exact writerFits_turn h.writer
  · show sems.read = 0
    omega

/-- A step of the reader, as long as the semaphores are there. -/
theorem Running.readerStep (h : Running reads writes s sems seg) (hstep : readerStep s = .ok s') :
    ∃ sems', Running reads writes s' sems' seg := by
  cases hpc : s.rpc with
  | semget => exact h.readerSemget hpc hstep
  | shmget => exact h.readerShmget hpc hstep
  | shmat => exact h.readerShmat hpc hstep
  | reserve => exact h.readerReserve hpc hstep
  | testCnt => exact h.readerTestCnt hpc hstep
  | addBytes => exact h.readerAddBytes hpc hstep
  | write =>
      rw [SvShm.readerStep, hpc] at hstep
      obtain rfl := readerAccess_ok h.shm_eq hstep
      exact ⟨sems, h.writeStdout hpc⟩
  | testWrite n => exact h.readerTestWrite hpc hstep
  | release => exact h.readerRelease hpc hstep
  | next => exact h.readerNext hpc hstep
  | shmdt => exact h.readerShmdt hpc hstep
  | lastRelease => exact h.readerLastRelease hpc hstep
  | _ =>
      rw [SvShm.readerStep, hpc] at hstep
      cases hstep

end Steps

end LinuxCodeDemos.SvShm

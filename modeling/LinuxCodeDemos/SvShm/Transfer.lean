/-
  LinuxCodeDemos.SvShm.Transfer

  Whole runs of the writer and the reader, over every order of their steps, from a system without
  the two objects.  No call fails but those that fail here: the ones on objects that do not exist,
  `read`, and a `write` that is not complete.

  - The reader never writes anything but the next bytes of the writer's input, and the objects are
    removed behind its last use of them (`transfer_safe`); its `fprintf` and its `exit` may still be
    to come.
  - Every run comes to an end, and only failures or a reader that comes too early keep it from
    being complete (`transfer_ends`).
-/

import LinuxCodeDemos.SvShm.Counts

namespace LinuxCodeDemos.SvShm

open Lib

variable {bufSize : Nat} {reads : List (Read bufSize)} {writes : List (Option Nat)}
  {s s' : Sys bufSize}

-- ============================================================================
-- From the start on
-- ============================================================================

/-- The writer has not made the segment yet. -/
structure Setup (reads : List (Read bufSize)) (writes : List (Option Nat)) (s : Sys bufSize) :
    Prop where
  shm_eq : s.shm = none
  writer : (s.wpc = .semget ∧ s.sems = none) ∨
    (s.wpc = .initSemAvailable ∧ s.sems = some { write := 0, read := 0 }) ∨
    (s.wpc = .initSemInUse ∨ s.wpc = .shmget) ∧ s.sems = some { write := 1, read := 0 }
  reader : s.rpc = .semget ∨ s.rpc = .shmget ∨ s.rpc = .noObjects
  stdin : s.stdin = reads
  stdout : s.stdout = []
  writes : s.writes = writes
  counters : s.wxfrs = 0 ∧ s.wbytes = 0 ∧ s.rxfrs = 0 ∧ s.rbytes = 0

/-- The states of a run. -/
inductive Reached (reads : List (Read bufSize)) (writes : List (Option Nat)) (s : Sys bufSize) :
    Prop where
  | setup (h : Setup reads writes s)
  | running (sems : Sems) (seg : Shmseg bufSize) (h : Running reads writes s sems seg)
  | removed (h : Removed reads s)

theorem setup_start : Setup reads writes (.start reads writes) :=
  ⟨rfl, .inl ⟨rfl, rfl⟩, .inl rfl, rfl, rfl, rfl, rfl, rfl, rfl, rfl⟩

/-- Nothing is counted before the first block. -/
theorem counted_of_zero (hcounters : s.wxfrs = 0 ∧ s.wbytes = 0 ∧ s.rxfrs = 0 ∧ s.rbytes = 0)
    (hstdin : s.stdin = reads) (hstdout : s.stdout = []) (hcnt : s.cnt = 0)
    (howes : writerOwes s.wpc 0 = 0) (hkeeps : writerKeeps s.wpc 0 = 0)
    (hreader : s.rpc = .semget ∨ s.rpc = .shmget ∨ s.rpc = .noObjects) : Counted reads s := by
  obtain ⟨hwxfrs, hwbytes, hrxfrs, hrbytes⟩ := hcounters
  have hahead : readerAhead s.rpc 0 = 0 ∧ readerOwes s.rpc 0 = 0 := by
    rcases hreader with hpc | hpc | hpc
    all_goals
      rw [hpc]
      exact ⟨rfl, rfl⟩
  have hhanded : handedBytes s.readSem 0 = 0 := by
    rw [handedBytes]
    exact ite_self 0
  refine ⟨?_, ?_, ?_, ?_⟩
  · rw [hwbytes, hcnt, howes, hstdin, Nat.zero_add]
  · rw [hwxfrs, hcnt, howes, hstdin, Nat.min_zero, Nat.zero_add]
  · rw [hrbytes, hcnt, hahead.1, hstdout]
    rfl
  · rw [hrxfrs, hcnt, hahead.2, hhanded, hkeeps, hstdin]
    simp

theorem Setup.counted (h : Setup reads writes s) : Counted reads s := by
  have hplace : writerOwes s.wpc 0 = 0 ∧ writerKeeps s.wpc 0 = 0 := by
    rcases h.writer with ⟨hpc, -⟩ | ⟨hpc, -⟩ | ⟨hpc | hpc, -⟩
    all_goals
      rw [hpc]
      exact ⟨rfl, rfl⟩
  refine counted_of_zero h.counters h.stdin h.stdout ?_ hplace.1 hplace.2 h.reader
  rw [Sys.cnt, h.shm_eq]

/-- The segment is made with the semaphores at their first values. -/
theorem Setup.running (h : Setup reads writes s)
    (hsems : s.sems = some { write := 1, read := 0 }) :
    Running reads writes { s with shm := some (.zero bufSize), wpc := .shmat }
      { write := 1, read := 0 } (.zero bufSize) := by
  have hreader := h.reader
  refine ⟨hsems, rfl, ?_, rfl, ?_, ⟨[], h.stdin.symm⟩, fun hnil => ?_, fun _ => h.stdout, ?_, ?_,
    ?_, ?_⟩
  · rcases hreader with hpc | hpc | hpc
    all_goals
      show 1 + 0 + 0 + s.rpc.turn = 1
      rw [hpc]
      rfl
  · show ReaderFits bufSize writes s.rpc 0
    rcases hreader with hpc | hpc | hpc
    all_goals
      rw [hpc]
      trivial
  · rw [h.writes, hnil]
  · intro hdone
    exfalso
    rcases hreader with hpc | hpc | hpc
    all_goals simp [ReaderPc.Done, hpc] at hdone
  · intro hexited
    rfl
  · simp [WriterPc.Waits]
  · show s.stdout ++ readerHas s.rpc _ ++ [] ++ [] ++ bytesOf s.stdin = _
    have hhas : readerHas s.rpc (.zero bufSize) = [] := by
      rcases hreader with hpc | hpc | hpc
      all_goals
        rw [hpc]
        rfl
    rw [hhas, h.stdout, h.stdin]
    rfl

theorem Setup.writerStep (h : Setup reads writes s) (hstep : writerStep s = .ok s') :
    Reached reads writes s' ∧ Counted reads s' := by
  have hsetup : ∀ t : Sys bufSize, Setup reads writes t →
      Reached reads writes t ∧ Counted reads t := fun t ht => ⟨.setup ht, ht.counted⟩
  rw [SvShm.writerStep] at hstep
  rcases h.writer with ⟨hpc, hsems⟩ | ⟨hpc, hsems⟩ | ⟨hpc | hpc, hsems⟩
  · rw [hpc, hsems] at hstep
    obtain rfl := Except.ok.inj hstep
    exact hsetup _ ⟨h.shm_eq, .inr (.inl ⟨rfl, rfl⟩), h.reader, h.stdin, h.stdout, h.writes,
      h.counters⟩
  · rw [hpc, hsems] at hstep
    obtain rfl := Except.ok.inj hstep
    exact hsetup _ ⟨h.shm_eq, .inr (.inr ⟨.inl rfl, rfl⟩), h.reader, h.stdin, h.stdout, h.writes,
      h.counters⟩
  · rw [hpc, hsems] at hstep
    obtain rfl := Except.ok.inj hstep
    exact hsetup _ ⟨h.shm_eq, .inr (.inr ⟨.inr rfl, rfl⟩), h.reader, h.stdin, h.stdout, h.writes,
      h.counters⟩
  · rw [hpc, h.shm_eq] at hstep
    obtain rfl := Except.ok.inj hstep
    exact ⟨.running _ _ (h.running hsems),
      counted_of_zero h.counters h.stdin h.stdout rfl rfl rfl h.reader⟩

/-- A reader without the segment gives up. -/
theorem Setup.readerStep (h : Setup reads writes s) (hstep : readerStep s = .ok s') :
    Setup reads writes s' := by
  rw [SvShm.readerStep] at hstep
  rcases h.reader with hpc | hpc | hpc
  · rw [hpc] at hstep
    obtain rfl := Except.ok.inj hstep
    refine ⟨h.shm_eq, h.writer, ?_, h.stdin, h.stdout, h.writes, h.counters⟩
    by_cases hsems : s.sems.isSome
    · exact .inr (.inl (if_pos hsems))
    · exact .inr (.inr (if_neg hsems))
  · rw [hpc] at hstep
    obtain rfl := Except.ok.inj hstep
    exact ⟨h.shm_eq, h.writer, .inr (.inr (if_neg (by rw [h.shm_eq]; simp))), h.stdin, h.stdout,
      h.writes, h.counters⟩
  · rw [hpc] at hstep
    cases hstep

theorem Removed.writerStep (h : Removed reads s) (c : Counted reads s)
    (hstep : writerStep s = .ok s') : Removed reads s' ∧ Counted reads s' := by
  rw [SvShm.writerStep] at hstep
  rcases h.wpc with ⟨hpc | hpc, hshm⟩ | ⟨hpc, hshm⟩
  · rw [hpc] at hstep
    obtain rfl := Except.ok.inj hstep
    exact ⟨⟨h.sems_eq, .inl ⟨.inr rfl, hshm⟩, h.rpc, h.stdin, h.no_failed, h.bytes⟩,
      c.writerMoves hpc rfl rfl⟩
  · obtain ⟨seg, hseg⟩ := Option.isSome_iff_exists.mp hshm
    rw [hpc] at hstep
    obtain rfl := writerAccess_ok hseg hstep
    obtain ⟨hwbytes, hwxfrs, hrbytes, hrxfrs⟩ := c
    rw [hpc] at hwbytes hwxfrs hrxfrs
    rw [h.rpc] at hrbytes hrxfrs
    rw [Sys.readSem, h.sems_eq] at hrxfrs
    refine ⟨⟨h.sems_eq, .inr ⟨rfl, rfl⟩, h.rpc, h.stdin, h.no_failed, h.bytes⟩, hwbytes, hwxfrs,
      ?_, ?_⟩
    · rw [h.rpc]
      exact hrbytes
    · rw [h.rpc, Sys.readSem, h.sems_eq]
      exact hrxfrs
  · rw [hpc] at hstep
    cases hstep

/-- What every step keeps. -/
theorem Reached.step (h : Reached reads writes s) (c : Counted reads s) (p : Process)
    (hstep : step s p = .ok s') : Reached reads writes s' ∧ Counted reads s' := by
  cases h with
  | setup h =>
      cases p with
      | writer => exact h.writerStep hstep
      | reader =>
          have hsetup := h.readerStep hstep
          exact ⟨.setup hsetup, hsetup.counted⟩
  | running sems seg h =>
      cases p with
      | writer =>
          refine ⟨?_, c.writerStep h hstep⟩
          rcases h.writerStep hstep with ⟨sems', seg', h'⟩ | h'
          · exact .running sems' seg' h'
          · exact .removed h'
      | reader =>
          obtain ⟨sems', h'⟩ := h.readerStep hstep
          exact ⟨.running sems' seg h', c.readerStep h hstep⟩
  | removed h =>
      cases p with
      | writer =>
          obtain ⟨h', c'⟩ := h.writerStep c hstep
          exact ⟨.removed h', c'⟩
      | reader =>
          rw [SvShm.step, SvShm.readerStep, h.rpc] at hstep
          cases hstep

theorem reached_run {schedule : List Process}
    (hrun : runSteps step (.start reads writes) schedule = .ok s) :
    Reached reads writes s ∧ Counted reads s := by
  have hkeeps : ∀ (t : Sys bufSize) (p : Process), Reached reads writes t ∧ Counted reads t →
      Ends (fun t => Reached reads writes t ∧ Counted reads t) (fun _ => True) (step t p) :=
    fun t p h => ends_of_forall fun _ hstep => h.1.step h.2 p hstep
  exact (runSteps_keeps hkeeps ⟨.setup setup_start, setup_start.counted⟩ schedule).of_ok hrun

-- ============================================================================
-- No run is endless
-- ============================================================================

/-- The steps that the writer has before it, at most: a block is worth twelve. -/
def writerRank (wpc : WriterPc) (cnt : Int) : Nat :=
  match wpc with
  | .semget => 28
  | .initSemAvailable => 27
  | .initSemInUse => 26
  | .shmget => 25
  | .shmat => 24
  | .reserve => 21
  | .read => 20
  | .storeCnt n => if n = 0 ∨ n = -1 then 19 else 30
  | .testError => if cnt = 0 ∨ cnt = -1 then 18 else 29
  | .release => if cnt = 0 then 17 else 28
  | .testCnt => if cnt = 0 then 16 else 27
  | .next => 26
  | .lastReserve => 15
  | .semctl => 14
  | .shmdt => 13
  | .shmctl => 12
  | .exited => 0
  | .readFailed => 0
  | .failed => 0

/-- The steps that the reader has before it, at most: a turn is worth ten. -/
def readerRank : ReaderPc → Nat
  | .semget => 14
  | .shmget => 13
  | .shmat => 12
  | .testCnt => 9
  | .addBytes => 8
  | .write => 7
  | .testWrite _ => 6
  | .release => 5
  | .next => 4
  | .reserve => 3
  | .shmdt => 8
  | .lastRelease => 7
  | .exited => 0
  | .noObjects => 0
  | .writeFailed _ => 0
  | .failed => 0

def Sys.writerLeft (s : Sys bufSize) : Nat := 12 * s.stdin.length + writerRank s.wpc s.cnt

def Sys.readerLeft (s : Sys bufSize) : Nat := readerRank s.rpc + 10 * s.readSem

/-- A step of the writer may give the reader one more turn. -/
def Sys.left (s : Sys bufSize) : Nat := 11 * s.writerLeft + s.readerLeft

theorem writerSemop_left {call : Semop} {wpc : WriterPc} (hstep : s.writerSemop call wpc = .ok s')
    (hrank : writerRank wpc s.cnt < writerRank s.wpc s.cnt) : s'.writerLeft < s.writerLeft := by
  rw [Sys.writerLeft, Sys.writerLeft]
  cases call with
  | asleep => cases hstep
  | done sems =>
      obtain rfl := Except.ok.inj hstep
      exact Nat.add_lt_add_left hrank _
  | failed =>
      obtain rfl := Except.ok.inj hstep
      exact Nat.add_lt_add_left (Nat.zero_lt_of_lt hrank) _

theorem writerAccess_left {access : Shmseg bufSize → Sys bufSize}
    (hstep : s.writerAccess access = .ok s') (hpos : 0 < writerRank s.wpc s.cnt)
    (haccess : ∀ seg, s.shm = some seg → (access seg).writerLeft < s.writerLeft) :
    s'.writerLeft < s.writerLeft := by
  rw [Sys.writerAccess] at hstep
  split at hstep
  · obtain rfl := Except.ok.inj hstep
    rw [Sys.writerLeft, Sys.writerLeft]
    exact Nat.add_lt_add_left hpos _
  · next seg hshm =>
      obtain rfl := Except.ok.inj hstep
      exact haccess seg hshm

/-- `read` gives up a place, or a block. -/
theorem readStdin_left (hpc : s.wpc = .read) {seg : Shmseg bufSize} :
    (s.readStdin seg).writerLeft < s.writerLeft := by
  have hbefore : s.writerLeft = 12 * s.stdin.length + 20 := by
    rw [Sys.writerLeft, hpc]
    rfl
  rw [hbefore, Sys.readStdin]
  split
  · next hstdin =>
      show 12 * s.stdin.length + 19 < _
      omega
  · next hstdin =>
      show 12 * s.stdin.length + 19 < _
      omega
  · next b stdin hstdin =>
      have hpos := b.pos
      have hrank : writerRank (.storeCnt b.bytes.length) (seg.fill b).cnt = 30 :=
        if_neg (by omega)
      show 12 * stdin.length + writerRank (.storeCnt b.bytes.length) (seg.fill b).cnt < _
      rw [hrank, hstdin, List.length_cons]
      omega

/-- Any other step keeps what is to be read. -/
theorem writerLeft_lt {t : Sys bufSize} (hstdin : t.stdin = s.stdin)
    (hrank : writerRank t.wpc t.cnt < writerRank s.wpc s.cnt) : t.writerLeft < s.writerLeft := by
  rw [Sys.writerLeft, Sys.writerLeft, hstdin]
  exact Nat.add_lt_add_left hrank _

section Ranks

variable {cnt n : Int}

theorem writerRank_testError_lt : writerRank .testError n < writerRank (.storeCnt n) cnt := by
  rw [writerRank, writerRank]
  split
  · decide
  · decide

theorem writerRank_release_lt (hcnt : cnt ≠ -1) :
    writerRank .release cnt < writerRank .testError cnt := by
  rw [writerRank, writerRank]
  split
  · next hzero => rw [if_pos (.inl hzero)]; decide
  · next hzero => rw [if_neg (fun h => h.elim hzero hcnt)]; decide

theorem writerRank_testCnt_lt : writerRank .testCnt cnt < writerRank .release cnt := by
  rw [writerRank, writerRank]
  split
  · decide
  · decide

theorem writerRank_next_lt :
    writerRank (if cnt = 0 then .lastReserve else .next) cnt < writerRank .testCnt cnt := by
  rw [show writerRank .testCnt cnt = if cnt = 0 then 16 else 27 from rfl]
  split
  · exact Nat.lt_succ_self 15
  · exact Nat.lt_succ_self 26

theorem writerRank_testError_pos : 0 < writerRank .testError cnt := by
  rw [writerRank]
  split
  · decide
  · decide

end Ranks

theorem testError_left (hpc : s.wpc = .testError) (hstep : writerStep s = .ok s') :
    s'.writerLeft < s.writerLeft := by
  rw [writerStep, hpc] at hstep
  refine writerAccess_left hstep (by rw [hpc]; exact writerRank_testError_pos) fun seg hshm =>
    writerLeft_lt rfl ?_
  have hcnt : s.cnt = seg.cnt := by rw [Sys.cnt, hshm]
  show writerRank (if seg.cnt = -1 then .readFailed else .release) s.cnt < _
  rw [hpc, hcnt]
  by_cases hfailed : seg.cnt = -1
  · rw [if_pos hfailed]
    exact writerRank_testError_pos
  · rw [if_neg hfailed]
    exact writerRank_release_lt hfailed

theorem testCnt_left (hpc : s.wpc = .testCnt) (hstep : writerStep s = .ok s') :
    s'.writerLeft < s.writerLeft := by
  rw [writerStep, hpc] at hstep
  refine writerAccess_left hstep ?_ fun seg hshm => writerLeft_lt rfl ?_
  · rw [hpc]
    exact Nat.zero_lt_of_lt writerRank_next_lt
  · have hcnt : s.cnt = seg.cnt := by rw [Sys.cnt, hshm]
    show writerRank (if seg.cnt = 0 then .lastReserve else .next) s.cnt < _
    rw [hpc, hcnt]
    exact writerRank_next_lt

theorem semctl_left (hpc : s.wpc = .semctl) (hstep : writerStep s = .ok s') :
    s'.writerLeft < s.writerLeft := by
  rw [writerStep, hpc] at hstep
  cases hsems : s.sems with
  | none =>
      rw [hsems] at hstep
      obtain rfl := Except.ok.inj hstep
      exact writerLeft_lt rfl (by simp [hpc, writerRank])
  | some sems =>
      rw [hsems] at hstep
      obtain rfl := Except.ok.inj hstep
      exact writerLeft_lt rfl (by simp [hpc, writerRank])

theorem writerStep_left (hstep : writerStep s = .ok s') : s'.writerLeft < s.writerLeft := by
  cases hpc : s.wpc with
  | semget =>
      rw [writerStep, hpc] at hstep
      obtain rfl := Except.ok.inj hstep
      exact writerLeft_lt rfl (by simp [hpc, writerRank])
  | initSemAvailable =>
      rw [writerStep, hpc] at hstep
      exact writerSemop_left hstep (by simp [hpc, writerRank])
  | initSemInUse =>
      rw [writerStep, hpc] at hstep
      exact writerSemop_left hstep (by simp [hpc, writerRank])
  | shmget =>
      rw [writerStep, hpc] at hstep
      obtain rfl := Except.ok.inj hstep
      exact writerLeft_lt rfl (by simp [hpc, writerRank])
  | shmat =>
      rw [writerStep, hpc] at hstep
      exact writerAccess_left hstep (by simp [hpc, writerRank]) fun _ _ =>
        writerLeft_lt rfl (by simp [hpc, writerRank])
  | reserve =>
      rw [writerStep, hpc] at hstep
      exact writerSemop_left hstep (by simp [hpc, writerRank])
  | read =>
      rw [writerStep, hpc] at hstep
      exact writerAccess_left hstep (by simp [hpc, writerRank]) fun _ _ => readStdin_left hpc
  | storeCnt n =>
      rw [writerStep, hpc] at hstep
      refine writerAccess_left hstep ?_ fun seg _ => writerLeft_lt rfl ?_
      · rw [hpc]
        exact Nat.zero_lt_of_lt writerRank_testError_lt
      · rw [hpc]
        exact writerRank_testError_lt
  | testError => exact testError_left hpc hstep
  | release =>
      rw [writerStep, hpc] at hstep
      exact writerSemop_left hstep (by rw [hpc]; exact writerRank_testCnt_lt)
  | testCnt => exact testCnt_left hpc hstep
  | next =>
      rw [writerStep, hpc] at hstep
      exact writerAccess_left hstep (by simp [hpc, writerRank]) fun _ _ =>
        writerLeft_lt rfl (by simp [hpc, writerRank])
  | lastReserve =>
      rw [writerStep, hpc] at hstep
      exact writerSemop_left hstep (by simp [hpc, writerRank])
  | semctl => exact semctl_left hpc hstep
  | shmdt =>
      rw [writerStep, hpc] at hstep
      obtain rfl := Except.ok.inj hstep
      exact writerLeft_lt rfl (by simp [hpc, writerRank])
  | shmctl =>
      rw [writerStep, hpc] at hstep
      exact writerAccess_left hstep (by simp [hpc, writerRank]) fun _ _ =>
        writerLeft_lt rfl (by simp [hpc, writerRank])
  | _ =>
      rw [writerStep, hpc] at hstep
      cases hstep

/-- The writer gives at most one turn at a time. -/
theorem writerStep_readerLeft (hstep : writerStep s = .ok s') :
    s'.readerLeft ≤ s.readerLeft + 10 := by
  have hread : s'.rpc = s.rpc ∧ s'.readSem ≤ s.readSem + 1 := by
    rw [writerStep] at hstep
    split at hstep <;> grind [Sys.writerSemop, Sys.writerAccess, Sys.readSem, Sems.set, Sems.get,
      Sys.readStdin, initSemAvailable, initSemInUse, initSem, reserveSem, releaseSem]
  rw [Sys.readerLeft, Sys.readerLeft, hread.1]
  omega

theorem readerStep_left (hstep : readerStep s = .ok s') :
    s'.writerLeft = s.writerLeft ∧ s'.readerLeft < s.readerLeft := by
  have hkeeps : s'.stdin = s.stdin ∧ s'.wpc = s.wpc ∧ s'.shm = s.shm ∧
      readerRank s'.rpc + 10 * s'.readSem < readerRank s.rpc + 10 * s.readSem := by
    rw [readerStep] at hstep
    split at hstep <;> grind [Sys.readerSemop, Sys.readerAccess, readerRank, Sys.readSem, Sems.set,
      Sems.get, Sys.writeStdout, reserveSem, releaseSem]
  refine ⟨?_, hkeeps.2.2.2⟩
  rw [Sys.writerLeft, Sys.writerLeft, hkeeps.1, hkeeps.2.1, Sys.cnt, Sys.cnt, hkeeps.2.2.1]

theorem step_left (p : Process) (hstep : step s p = .ok s') : s'.left < s.left := by
  rw [Sys.left, Sys.left]
  cases p with
  | writer =>
      have hwriter := writerStep_left hstep
      have hreader := writerStep_readerLeft hstep
      omega
  | reader =>
      obtain ⟨hwriter, hreader⟩ := readerStep_left hstep
      omega

-- ============================================================================
-- Runs
-- ============================================================================

/-- Any order of steps.  At most one process has the turn, neither fails on an object that is gone,
    what the reader has written is the start of the input, and the semaphores are removed only when
    the reader is past its last use of them and of the segment, and has written all of it. -/
theorem transfer_safe (reads : List (Read bufSize)) (writes : List (Option Nat))
    (schedule : List Process) (s : Sys bufSize)
    (hrun : runSteps step (.start reads writes) schedule = .ok s) :
    s.stdout <+: bytesOf reads ∧ s.wpc.turn + s.rpc.turn ≤ 1 ∧ s.wpc ≠ .failed ∧ s.rpc ≠ .failed ∧
      (s.sems = none → s.wpc = .semget ∨
        s.rpc = .exited ∧ s.stdout = bytesOf reads ∧ .failed ∉ reads) := by
  cases (reached_run hrun).1 with
  | setup h =>
      have hturn : s.wpc.turn = 0 ∧ s.wpc ≠ .failed := by
        rcases h.writer with ⟨hpc, -⟩ | ⟨hpc, -⟩ | ⟨hpc | hpc, -⟩
        all_goals
          rw [hpc]
          exact ⟨rfl, by simp⟩
      have hturn' : s.rpc.turn = 0 ∧ s.rpc ≠ .failed := by
        rcases h.reader with hpc | hpc | hpc
        all_goals
          rw [hpc]
          exact ⟨rfl, by simp⟩
      refine ⟨?_, by omega, hturn.2, hturn'.2, fun hnone => ?_⟩
      · rw [h.stdout]
        exact List.nil_prefix
      · rcases h.writer with ⟨hpc, -⟩ | ⟨-, hsems⟩ | ⟨-, hsems⟩
        · exact .inl hpc
        · rw [hsems] at hnone
          cases hnone
        · rw [hsems] at hnone
          cases hnone
  | running sems seg h =>
      have hturn := h.turn
      refine ⟨?_, by omega, fun hpc => ?_, fun hpc => ?_, fun hnone => ?_⟩
      · have hbytes := h.bytes
        rw [List.append_assoc, List.append_assoc, List.append_assoc] at hbytes
        exact ⟨_, hbytes⟩
      · have hwriter := h.writer
        rw [hpc] at hwriter
        exact hwriter
      · have hreader := h.reader
        rw [hpc] at hreader
        exact hreader
      · rw [h.sems_eq] at hnone
        cases hnone
  | removed h =>
      have hturn : s.wpc.turn = 0 ∧ s.wpc ≠ .failed := by
        rcases h.wpc with ⟨hpc | hpc, -⟩ | ⟨hpc, -⟩
        all_goals
          rw [hpc]
          exact ⟨rfl, by simp⟩
      refine ⟨?_, ?_, hturn.2, ?_, fun _ => .inr ⟨h.rpc, h.bytes, h.no_failed⟩⟩
      · exact ⟨[], by rw [List.append_nil, h.bytes]⟩
      · rw [hturn.1, h.rpc]
        decide
      · rw [h.rpc]
        simp

/-- A block of one byte. -/
def oneByte : List (Read 2) := [.block { bytes := [65], pos := by decide, le := by decide }]

/-- Turns of the two that hand over one block and the end of the file. -/
def oneByteSchedule : List Process :=
  List.replicate 12 .writer ++ List.replicate 10 .reader ++ List.replicate 6 .writer
    ++ List.replicate 4 .reader ++ List.replicate 4 .writer

/-- The state behind them. -/
def oneByteEnd : Sys 2 :=
  { sems := none, shm := none, wpc := .exited, wxfrs := 1, wbytes := 1, stdin := [], rpc := .exited
    rxfrs := 1, rbytes := 1, stdout := [65], writes := [] }

theorem transfer_safe_oneByte :
    oneByteEnd.stdout <+: bytesOf oneByte ∧ oneByteEnd.wpc.turn + oneByteEnd.rpc.turn ≤ 1 ∧
      oneByteEnd.wpc ≠ .failed ∧ oneByteEnd.rpc ≠ .failed ∧
      (oneByteEnd.sems = none → oneByteEnd.wpc = .semget ∨
        oneByteEnd.rpc = .exited ∧ oneByteEnd.stdout = bytesOf oneByte ∧ .failed ∉ oneByte) :=
  transfer_safe oneByte [] oneByteSchedule oneByteEnd rfl

/-- Where the writer makes no step. -/
theorem Running.writer_stuck {sems : Sems} {seg : Shmseg bufSize}
    (h : Running reads writes s sems seg) {e : Stuck} (hstep : SvShm.writerStep s = .error e) :
    s.wpc = .readFailed ∨ s.wpc.turn = 0 ∧ sems.write = 0 := by
  have hwriter := h.writer
  have haccess : ∀ access : Shmseg bufSize → Sys bufSize, s.writerAccess access ≠ .error e := by
    intro access hacc
    rw [Sys.writerAccess, h.shm_eq] at hacc
    cases hacc
  have hasleep : ∀ wpc, s.writerSemop (reserveSem s.sems .writeSem) wpc = .error e →
      sems.write = 0 := by
    intro wpc hsemop
    rw [h.sems_eq, reserveSem, Sems.get] at hsemop
    by_contra hne
    rw [if_neg hne] at hsemop
    cases hsemop
  have hrelease : ∀ wpc, s.writerSemop (releaseSem s.sems .readSem) wpc ≠ .error e := by
    intro wpc hsemop
    rw [h.sems_eq, releaseSem] at hsemop
    split at hsemop
    · cases hsemop
    · cases hsemop
  rw [SvShm.writerStep] at hstep
  cases hpc : s.wpc with
  | readFailed => exact .inl rfl
  | reserve =>
      rw [hpc] at hstep
      exact .inr ⟨rfl, hasleep _ hstep⟩
  | lastReserve =>
      rw [hpc] at hstep
      exact .inr ⟨rfl, hasleep _ hstep⟩
  | shmat =>
      rw [hpc] at hstep
      exact absurd hstep (haccess _)
  | read =>
      rw [hpc] at hstep
      exact absurd hstep (haccess _)
  | storeCnt n =>
      rw [hpc] at hstep
      exact absurd hstep (haccess _)
  | testError =>
      rw [hpc] at hstep
      exact absurd hstep (haccess _)
  | testCnt =>
      rw [hpc] at hstep
      exact absurd hstep (haccess _)
  | next =>
      rw [hpc] at hstep
      exact absurd hstep (haccess _)
  | release =>
      rw [hpc] at hstep
      exact absurd hstep (hrelease _)
  | semctl =>
      rw [hpc, h.sems_eq] at hstep
      cases hstep
  | _ =>
      rw [hpc] at hwriter
      exact hwriter.elim

/-- Where the reader makes no step. -/
theorem Running.reader_stuck {sems : Sems} {seg : Shmseg bufSize}
    (h : Running reads writes s sems seg) {e : Stuck} (hstep : SvShm.readerStep s = .error e) :
    (s.rpc = .noObjects ∨ ∃ n, s.rpc = .writeFailed n) ∨
      (s.rpc = .exited ∨ s.rpc = .reserve) ∧ sems.read = 0 := by
  have hreader := h.reader
  have haccess : ∀ access : Shmseg bufSize → Sys bufSize, s.readerAccess access ≠ .error e := by
    intro access hacc
    rw [Sys.readerAccess, h.shm_eq] at hacc
    cases hacc
  have hasleep : ∀ rpc, s.readerSemop (reserveSem s.sems .readSem) rpc = .error e →
      sems.read = 0 := by
    intro rpc hsemop
    rw [h.sems_eq, reserveSem, Sems.get] at hsemop
    by_contra hne
    rw [if_neg hne] at hsemop
    cases hsemop
  have hrelease : ∀ rpc, s.readerSemop (releaseSem s.sems .writeSem) rpc ≠ .error e := by
    intro rpc hsemop
    rw [h.sems_eq, releaseSem] at hsemop
    split at hsemop
    · cases hsemop
    · cases hsemop
  rw [SvShm.readerStep] at hstep
  cases hpc : s.rpc with
  | noObjects => exact .inl (.inl rfl)
  | writeFailed n => exact .inl (.inr ⟨n, rfl⟩)
  | exited => exact .inr ⟨.inl rfl, h.exited hpc⟩
  | reserve =>
      rw [hpc] at hstep
      exact .inr ⟨.inr rfl, hasleep _ hstep⟩
  | semget =>
      rw [hpc] at hstep
      cases hstep
  | shmget =>
      rw [hpc] at hstep
      cases hstep
  | next =>
      rw [hpc] at hstep
      cases hstep
  | shmdt =>
      rw [hpc] at hstep
      cases hstep
  | release =>
      rw [hpc] at hstep
      exact absurd hstep (hrelease _)
  | lastRelease =>
      rw [hpc] at hstep
      exact absurd hstep (hrelease _)
  | failed =>
      rw [hpc] at hreader
      exact hreader.elim
  | shmat =>
      rw [hpc] at hstep
      exact absurd hstep (haccess _)
  | testCnt =>
      rw [hpc] at hstep
      exact absurd hstep (haccess _)
  | addBytes =>
      rw [hpc] at hstep
      exact absurd hstep (haccess _)
  | write =>
      rw [hpc] at hstep
      exact absurd hstep (haccess _)
  | testWrite n =>
      rw [hpc] at hstep
      exact absurd hstep (haccess _)

/-- Both processes are behind their last calls on the objects, these are gone, and both have counted
    the same. -/
structure Finished (reads : List (Read bufSize)) (s : Sys bufSize) : Prop where
  exited : s.wpc = .exited ∧ s.rpc = .exited
  removed : s.sems = none ∧ s.shm = none
  stdout : .failed ∉ reads ∧ s.stdout = bytesOf reads
  bytes : s.wbytes % 2 ^ 32 = (bytesOf reads).length % 2 ^ 32 ∧ s.rbytes % 2 ^ 32 = s.wbytes % 2 ^ 32
  xfrs : s.wxfrs % 2 ^ 32 = blocksOf reads % 2 ^ 32 ∧ s.rxfrs % 2 ^ 32 = s.wxfrs % 2 ^ 32

theorem Removed.finished (h : Removed reads s) (c : Counted reads s)
    (hstuck : ∀ p, ∃ e, step s p = .error e) : Finished reads s := by
  obtain ⟨e, hstep⟩ := hstuck .writer
  rw [step, SvShm.writerStep] at hstep
  rcases h.wpc with ⟨hpc | hpc, hshm⟩ | ⟨hpc, hshm⟩
  · rw [hpc] at hstep
    cases hstep
  · obtain ⟨seg, hseg⟩ := Option.isSome_iff_exists.mp hshm
    rw [hpc] at hstep
    simp only [Sys.writerAccess, hseg] at hstep
    cases hstep
  · obtain ⟨hwbytes, hwxfrs, hrbytes, hrxfrs⟩ := c
    rw [hpc, h.stdin] at hwbytes hwxfrs hrxfrs
    rw [h.rpc] at hrbytes hrxfrs
    rw [Sys.readSem, h.sems_eq] at hrxfrs
    rw [h.bytes] at hrbytes
    have hwb : s.wbytes % 2 ^ 32 = (bytesOf reads).length % 2 ^ 32 := hwbytes
    have hwx : s.wxfrs % 2 ^ 32 = blocksOf reads % 2 ^ 32 := hwxfrs
    have hrb : s.rbytes % 2 ^ 32 = (bytesOf reads).length % 2 ^ 32 := hrbytes
    have hrx : s.rxfrs % 2 ^ 32 = blocksOf reads % 2 ^ 32 := hrxfrs
    exact ⟨⟨hpc, h.rpc⟩, ⟨h.sems_eq, hshm⟩, ⟨h.no_failed, h.bytes⟩, ⟨hwb, hrb.trans hwb.symm⟩,
      ⟨hwx, hrx.trans hwx.symm⟩⟩

/-- Every run is of bounded length.  Where no process can go on, the transfer is complete, or the
    reader came before the writer had made the objects, or a `read` failed and the reader has all
    the bytes before it, or a `write` was not complete. -/
theorem transfer_ends (reads : List (Read bufSize)) (writes : List (Option Nat))
    (schedule : List Process) (s : Sys bufSize)
    (hrun : runSteps step (.start reads writes) schedule = .ok s) :
    schedule.length ≤ 132 * reads.length + 322 ∧
      ((∀ p, ∃ e, step s p = .error e) →
        Finished reads s ∨ (s.rpc = .noObjects ∧ s.stdout = []) ∨
        (.failed ∈ reads ∧ s.wpc = .readFailed ∧ s.rpc = .reserve ∧ s.stdout = bytesOf reads) ∨
        (writes ≠ [] ∧ ∃ n, s.rpc = .writeFailed n)) := by
  refine ⟨?_, fun hstuck => ?_⟩
  · have hlength := runSteps_length_le (fun _ p _ => step_left p) hrun
    have hstart : (Sys.start reads writes).left = 11 * (12 * reads.length + 28) + 14 := rfl
    omega
  · obtain ⟨hreached, c⟩ := reached_run hrun
    obtain ⟨e, hwstep⟩ := hstuck .writer
    obtain ⟨e', hrstep⟩ := hstuck .reader
    cases hreached with
    | removed h => exact .inl (h.finished c hstuck)
    | setup h =>
        rw [step, writerStep] at hwstep
        rcases h.writer with ⟨hpc, hsems⟩ | ⟨hpc, hsems⟩ | ⟨hpc | hpc, hsems⟩
        all_goals
          rw [hpc, hsems] at hwstep
          cases hwstep
    | running sems seg h =>
        have hturn := h.turn
        rcases h.reader_stuck hrstep with (hpc | ⟨n, hpc⟩) | ⟨hpc, hread⟩
        · exact .inr (.inl ⟨hpc, h.starts (.inr (.inr (.inr hpc)))⟩)
        · have hreader := h.reader
          rw [hpc] at hreader
          exact .inr (.inr (.inr ⟨hreader.2, n, hpc⟩))
        · have hrturn : s.rpc.turn = 0 := by
            rcases hpc with hpc | hpc
            all_goals
              rw [hpc]
              rfl
          rcases h.writer_stuck hwstep with hfailed | ⟨hwturn, hwrite⟩
          · have hwriter := h.writer
            have hbytes := h.bytes
            rw [hfailed] at hwriter hbytes
            obtain ⟨-, rest, hstdin⟩ := hwriter
            obtain ⟨blocks, hblocks⟩ := h.consumed
            have hreserve : s.rpc = .reserve := hpc.resolve_left fun hexited =>
              h.not_done (by simp [hfailed, WriterPc.Waits]) (by simp [hfailed])
                (.inr (.inr hexited))
            rw [readerHas_of_turn hrturn, handed, if_pos hread, hstdin] at hbytes
            refine .inr (.inr (.inl ⟨?_, hfailed, hreserve, ?_⟩))
            · rw [hblocks, hstdin]
              simp
            · simpa [writerHas, bytesOf] using hbytes
          · omega

theorem transfer_ends_oneByte :
    oneByteSchedule.length ≤ 132 * oneByte.length + 322 ∧
      ((∀ p, ∃ e, step oneByteEnd p = .error e) →
        Finished oneByte oneByteEnd ∨ (oneByteEnd.rpc = .noObjects ∧ oneByteEnd.stdout = []) ∨
        (.failed ∈ oneByte ∧ oneByteEnd.wpc = .readFailed ∧ oneByteEnd.rpc = .reserve ∧
          oneByteEnd.stdout = bytesOf oneByte) ∨
        (([] : List (Option Nat)) ≠ [] ∧ ∃ n, oneByteEnd.rpc = .writeFailed n)) :=
  transfer_ends oneByte [] oneByteSchedule oneByteEnd rfl

end LinuxCodeDemos.SvShm

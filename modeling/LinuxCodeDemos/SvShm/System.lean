/-
  LinuxCodeDemos.SvShm.System

  The writer and the reader of `svshm_xfr_writer.c` and `svshm_xfr_reader.c`, with the semaphores of
  `binary_sems.c`.

  - A step is one access to what the two share: a call on the semaphores, or one load or store of
    the segment.  The kernel may take the steps of the two in any order.
  - `read` delivers the listed blocks, then the end of the file; a failed `read` delivers nothing.
  - `bsRetryOnEintr` is set: a `semop` that a signal interrupts is made again.
  - `exited` is the place behind the last access; `fprintf` and `exit` follow there.
  - A call fails on an object that does not exist or is gone; no other call but `read` and `write`
    fails.
-/

import LinuxCodeDemos.Lib.Memory
import LinuxCodeDemos.Lib.Run

namespace LinuxCodeDemos.SvShm

open Lib

-- ============================================================================
-- `binary_sems.c`
-- ============================================================================

/-- `WRITE_SEM` and `READ_SEM`. -/
inductive SemNum where
  | writeSem
  | readSem
  deriving DecidableEq, Repr

/-- The values of a set of two semaphores. -/
structure Sems where
  write : Nat
  read : Nat
  deriving DecidableEq, Repr

def Sems.get (sems : Sems) : SemNum → Nat
  | .writeSem => sems.write
  | .readSem => sems.read

def Sems.set (sems : Sems) (num : SemNum) (val : Nat) : Sems :=
  match num with
  | .writeSem => { sems with write := val }
  | .readSem => { sems with read := val }

/-- `SEMVMX`, the largest value of a semaphore. -/
def semvmx : Nat := 32767

/-- What a call of `semop` comes to. -/
inductive Semop where
  | done (sems : Sems)
  | asleep
  | failed
  deriving DecidableEq, Repr

/-- `initSemAvailable` and `initSemInUse`, by the value they set.  No set is a set that was
    removed. -/
def initSem (sems : Option Sems) (num : SemNum) (val : Nat) : Semop :=
  match sems with
  | none => .failed
  | some sems => .done (sems.set num val)

def initSemAvailable (sems : Option Sems) (num : SemNum) : Semop := initSem sems num 1

def initSemInUse (sems : Option Sems) (num : SemNum) : Semop := initSem sems num 0

def reserveSem (sems : Option Sems) (num : SemNum) : Semop :=
  match sems with
  | none => .failed
  | some sems => if sems.get num = 0 then .asleep else .done (sems.set num (sems.get num - 1))

def releaseSem (sems : Option Sems) (num : SemNum) : Semop :=
  match sems with
  | none => .failed
  | some sems => if sems.get num < semvmx then .done (sems.set num (sems.get num + 1)) else .failed

-- ============================================================================
-- The segment and the two processes
-- ============================================================================

/-- `struct shmseg`. -/
structure Shmseg (bufSize : Nat) where
  cnt : Int
  buf : List UInt8
  length_buf : buf.length = bufSize
  deriving DecidableEq

/-- The bytes that one `read` stores. -/
structure Block (bufSize : Nat) where
  bytes : List UInt8
  pos : 0 < bytes.length
  le : bytes.length ≤ bufSize
  deriving DecidableEq

/-- What a call of `read` comes to before the end of the file. -/
inductive Read (bufSize : Nat) where
  | block (b : Block bufSize)
  | failed
  deriving DecidableEq

/-- `shmget` with `IPC_CREAT` gives a segment of zeros. -/
def Shmseg.zero (bufSize : Nat) : Shmseg bufSize :=
  { cnt := 0, buf := List.replicate bufSize 0, length_buf := List.length_replicate }

/-- The copy that `read` makes. -/
def Shmseg.fill {bufSize : Nat} (seg : Shmseg bufSize) (b : Block bufSize) : Shmseg bufSize where
  cnt := seg.cnt
  buf := b.bytes ++ seg.buf.drop b.bytes.length
  length_buf := by
    have hbuf := seg.length_buf
    have hle := b.le
    rw [List.length_append, List.length_drop]
    omega

/-- Where the writer stands. -/
inductive WriterPc where
  | semget
  | initSemAvailable
  | initSemInUse
  | shmget
  | shmat
  | reserve
  | read
  /-- `read` has returned `n`. -/
  | storeCnt (n : Int)
  | testError
  | release
  | testCnt
  | next
  | lastReserve
  | semctl
  | shmdt
  | shmctl
  | exited
  /-- `errExit("read")`. -/
  | readFailed
  /-- Any other failure. -/
  | failed
  deriving DecidableEq, Repr

/-- Where the reader stands. -/
inductive ReaderPc where
  | semget
  | shmget
  | shmat
  | reserve
  | testCnt
  | addBytes
  | write
  /-- `write` has returned `n`. -/
  | testWrite (n : Int)
  | release
  | next
  | shmdt
  | lastRelease
  | exited
  /-- `errExit` before the writer has made the semaphores and the segment. -/
  | noObjects
  /-- `fatal("partial/failed write")`. -/
  | writeFailed (n : Int)
  /-- Any other failure. -/
  | failed
  deriving DecidableEq, Repr

/-- Both processes and what they share.  `writes` are the results of the coming calls of `write`;
    behind the listed ones they are complete. -/
structure Sys (bufSize : Nat) where
  sems : Option Sems
  shm : Option (Shmseg bufSize)
  wpc : WriterPc
  wxfrs : Nat
  wbytes : Nat
  stdin : List (Read bufSize)
  rpc : ReaderPc
  rxfrs : Nat
  rbytes : Nat
  stdout : List UInt8
  writes : List (Option Nat)
  deriving DecidableEq

/-- Both processes are started; no object of the two keys exists. -/
def Sys.start {bufSize : Nat} (stdin : List (Read bufSize)) (writes : List (Option Nat)) :
    Sys bufSize :=
  { sems := none, shm := none, wpc := .semget, wxfrs := 0, wbytes := 0, stdin, rpc := .semget
    rxfrs := 0, rbytes := 0, stdout := [], writes }

-- ============================================================================
-- Steps
-- ============================================================================

/-- Why a process makes no step. -/
inductive Stuck where
  | asleep
  | ended
  deriving DecidableEq, Repr

section Steps

variable {bufSize : Nat}

/-- A call on the semaphores by the writer. -/
def Sys.writerSemop (s : Sys bufSize) (call : Semop) (pc : WriterPc) : Except Stuck (Sys bufSize) :=
  match call with
  | .done sems => .ok { s with sems := some sems, wpc := pc }
  | .asleep => .error .asleep
  | .failed => .ok { s with wpc := .failed }

/-- A call on the semaphores by the reader. -/
def Sys.readerSemop (s : Sys bufSize) (call : Semop) (pc : ReaderPc) : Except Stuck (Sys bufSize) :=
  match call with
  | .done sems => .ok { s with sems := some sems, rpc := pc }
  | .asleep => .error .asleep
  | .failed => .ok { s with rpc := .failed }

/-- An access of the writer to the segment.  Here it fails once the segment is marked for removal,
    where the kernel waits for the last process to detach it. -/
def Sys.writerAccess (s : Sys bufSize) (access : Shmseg bufSize → Sys bufSize) :
    Except Stuck (Sys bufSize) :=
  match s.shm with
  | none => .ok { s with wpc := .failed }
  | some seg => .ok (access seg)

/-- An access of the reader to the segment. -/
def Sys.readerAccess (s : Sys bufSize) (access : Shmseg bufSize → Sys bufSize) :
    Except Stuck (Sys bufSize) :=
  match s.shm with
  | none => .ok { s with rpc := .failed }
  | some seg => .ok (access seg)

/-- `read(STDIN_FILENO, shmp->buf, BUF_SIZE)`, up to its return. -/
def Sys.readStdin (s : Sys bufSize) (seg : Shmseg bufSize) : Sys bufSize :=
  match s.stdin with
  | [] => { s with wpc := .storeCnt 0 }
  | .failed :: _ => { s with wpc := .storeCnt (-1) }
  | .block b :: stdin =>
      { s with shm := some (seg.fill b), stdin, wpc := .storeCnt b.bytes.length }

/-- `write(STDOUT_FILENO, shmp->buf, shmp->cnt)`, up to its return. -/
def Sys.writeStdout (s : Sys bufSize) (seg : Shmseg bufSize) : Sys bufSize :=
  match s.writes with
  | [] =>
      { s with stdout := s.stdout ++ seg.buf.take seg.cnt.toNat, rpc := .testWrite seg.cnt }
  | none :: writes => { s with writes, rpc := .testWrite (-1) }
  | some n :: writes =>
      { s with
        stdout := s.stdout ++ seg.buf.take (min n seg.cnt.toNat), writes
        rpc := .testWrite (min n seg.cnt.toNat : Nat) }

def writerStep (s : Sys bufSize) : Except Stuck (Sys bufSize) :=
  match s.wpc with
  | .semget => .ok { s with sems := some (s.sems.getD { write := 0, read := 0 })
                            wpc := .initSemAvailable }
  | .initSemAvailable => s.writerSemop (initSemAvailable s.sems .writeSem) .initSemInUse
  | .initSemInUse => s.writerSemop (initSemInUse s.sems .readSem) .shmget
  | .shmget => .ok { s with shm := some (s.shm.getD (.zero bufSize)), wpc := .shmat }
  | .shmat => s.writerAccess fun _ => { s with wpc := .reserve }
  | .reserve => s.writerSemop (reserveSem s.sems .writeSem) .read
  | .read => s.writerAccess s.readStdin
  | .storeCnt n =>
      s.writerAccess fun seg => { s with shm := some { seg with cnt := n }, wpc := .testError }
  | .testError =>
      s.writerAccess fun seg => { s with wpc := if seg.cnt = -1 then .readFailed else .release }
  | .release => s.writerSemop (releaseSem s.sems .readSem) .testCnt
  | .testCnt =>
      s.writerAccess fun seg => { s with wpc := if seg.cnt = 0 then .lastReserve else .next }
  | .next =>
      s.writerAccess fun seg =>
        { s with wxfrs := addInt s.wxfrs 1, wbytes := addInt s.wbytes seg.cnt.toNat
                 wpc := .reserve }
  | .lastReserve => s.writerSemop (reserveSem s.sems .writeSem) .semctl
  | .semctl =>
      match s.sems with
      | none => .ok { s with wpc := .failed }
      | some _ => .ok { s with sems := none, wpc := .shmdt }
  | .shmdt => .ok { s with wpc := .shmctl }
  | .shmctl => s.writerAccess fun _ => { s with shm := none, wpc := .exited }
  | .exited => .error .ended
  | .readFailed => .error .ended
  | .failed => .error .ended

def readerStep (s : Sys bufSize) : Except Stuck (Sys bufSize) :=
  match s.rpc with
  | .semget => .ok { s with rpc := if s.sems.isSome then .shmget else .noObjects }
  | .shmget => .ok { s with rpc := if s.shm.isSome then .shmat else .noObjects }
  | .shmat => s.readerAccess fun _ => { s with rpc := .reserve }
  | .reserve => s.readerSemop (reserveSem s.sems .readSem) .testCnt
  | .testCnt =>
      s.readerAccess fun seg => { s with rpc := if seg.cnt = 0 then .shmdt else .addBytes }
  | .addBytes =>
      s.readerAccess fun seg =>
        { s with rbytes := addInt s.rbytes seg.cnt.toNat, rpc := .write }
  | .write => s.readerAccess s.writeStdout
  | .testWrite n =>
      s.readerAccess fun seg =>
        { s with rpc := if n = seg.cnt then .release else .writeFailed n }
  | .release => s.readerSemop (releaseSem s.sems .writeSem) .next
  | .next => .ok { s with rxfrs := addInt s.rxfrs 1, rpc := .reserve }
  | .shmdt => .ok { s with rpc := .lastRelease }
  | .lastRelease => s.readerSemop (releaseSem s.sems .writeSem) .exited
  | .exited => .error .ended
  | .noObjects => .error .ended
  | .writeFailed _ => .error .ended
  | .failed => .error .ended

/-- The two processes. -/
inductive Process where
  | writer
  | reader
  deriving DecidableEq, Repr

/-- A step of the process that the kernel runs. -/
def step (s : Sys bufSize) : Process → Except Stuck (Sys bufSize)
  | .writer => writerStep s
  | .reader => readerStep s

end Steps

end LinuxCodeDemos.SvShm

/-
  LinuxCodeDemos.Epoll.Comm

  The event framework of `epoll_framework`: the tables of `comm.c`, the epoll
  bookkeeping of `comm_epoll.c`, and what the kernel holds.

  - A handler is a function pointer and its data a `void *`; both are type
    variables here, and `none` is NULL.
  - `fd_table` and `epoll_state` are functions of the descriptor.  The entry at
    `Biggest_FD`, which `checkTimeouts` looks at too, is the zeros behind the
    block that `calloc` returns; an entry beyond it is out of bounds.
  - The kernel part is the set of open descriptors, the interest list of `kdpfd`
    and the wall clock.  `log` records the `epoll_ctl` calls and what concerns
    timeouts, the latest entry first.
-/

import Mathlib.Logic.Function.Basic
import LinuxCodeDemos.Lib.Run

namespace LinuxCodeDemos.Epoll

open Function (update)

def epollIn : UInt32 := 0x001
def epollOut : UInt32 := 0x004
def epollErr : UInt32 := 0x008
def epollHup : UInt32 := 0x010

/-- Why a run stops. -/
inductive Trap where
  /-- A failed `assert`. -/
  | assertion
  /-- An entry of `fd_table` or `epoll_state` behind the tables. -/
  | outOfBounds
  /-- A NULL pointer is followed. -/
  | nullPointer
  /-- A handler is called with a block that has been freed. -/
  | useAfterFree
  /-- A block is freed twice. -/
  | doubleFree
  deriving DecidableEq, Repr

/-- The operations of `epoll_ctl`. -/
inductive CtlType where
  | add
  | mod
  | del
  deriving DecidableEq, Repr

/-- What is recorded of a run. -/
inductive LogEntry where
  /-- An `epoll_ctl` call, and whether the descriptor was on the interest list. -/
  | ctl (type : CtlType) (fd : Nat) (present : Bool)
  /-- `commSetTimeout` with a timeout that is not negative, and the wall clock. -/
  | setTimeout (fd : Nat) (timeout : Int) (clock : Int)
  /-- `checkTimeouts` calls the timeout handler or closes, and the wall clock. -/
  | expired (fd : Nat) (clock : Int)
  deriving DecidableEq, Repr

/-- The handler fields of an entry of `fd_table`. -/
structure Fde (H D : Type) where
  readHandler : Option H
  readData : Option D
  writeHandler : Option H
  writeData : Option D
  timeoutHandler : Option H
  timeout : Int
  timeoutData : Option D
  deriving DecidableEq, Repr

/-- An entry after `memset`. -/
def Fde.zero {H D : Type} : Fde H D :=
  { readHandler := none, readData := none, writeHandler := none, writeData := none
    timeoutHandler := none, timeout := 0, timeoutData := none }

/-- The framework and the kernel. -/
structure Comm (H D : Type) where
  biggestFd : Nat
  fdTable : Nat → Fde H D
  sysCurtime : Int
  epollState : Nat → UInt32
  epollFds : Int
  isOpen : Nat → Bool
  interest : Nat → Option UInt32
  clock : Int
  log : List LogEntry

variable {H D : Type}

/-- `getCurrentTime`. -/
def getCurrentTime (c : Comm H D) : Comm H D := { c with sysCurtime := c.clock }

/-- The kernel's side of an `epoll_ctl` that succeeds. -/
def ctlInterest (interest : Nat → Option UInt32) (type : CtlType) (fd : Nat) (events : UInt32) :
    Nat → Option UInt32 :=
  match type with
  | .add => update interest fd (some events)
  | .mod => update interest fd (some events)
  | .del => update interest fd none

/-- `ev.events` of `epollSetEvents`. -/
def wantedEvents (needRead needWrite : Bool) : UInt32 :=
  let events := (if needRead then epollIn else 0) ||| (if needWrite then epollOut else 0)
  if events ≠ 0 then events ||| (epollHup ||| epollErr) else events

/-- The operation that `epollSetEvents` infers from its own state. -/
def ctlType (events state : UInt32) : CtlType :=
  if events = 0 then .del else if state ≠ 0 then .mod else .add

/-- `epollSetEvents`; `ok` is whether the `epoll_ctl` call succeeds.  A failed call is followed by a
    message with `xstrerror`, which can crash the program; the run goes on here. -/
def epollSetEvents (ok : Bool) (fd : Nat) (needRead needWrite : Bool) (c : Comm H D) : Comm H D :=
  let events := wantedEvents needRead needWrite
  if events ≠ c.epollState fd then
    let type := ctlType events (c.epollState fd)
    { c with
      epollState := update c.epollState fd events
      interest := if ok then ctlInterest c.interest type fd events else c.interest
      epollFds := match type with
        | .add => c.epollFds + 1
        | .del => c.epollFds - 1
        | .mod => c.epollFds
      log := .ctl type fd (c.interest fd).isSome :: c.log }
  else c

/-- `fd_table[fd] = ..`. -/
def setEntry (fd : Nat) (f : Fde H D → Fde H D) (c : Comm H D) : Comm H D :=
  { c with fdTable := update c.fdTable fd (f (c.fdTable fd)) }

/-- `close`: the descriptor leaves the interest list too. -/
def closeFd (fd : Nat) (c : Comm H D) : Comm H D :=
  { c with isOpen := update c.isOpen fd false, interest := update c.interest fd none }

/-- An index of `fd_table` and of `epoll_state`. -/
def checkFd (fd : Nat) (c : Comm H D) : Except Trap Unit :=
  if fd < c.biggestFd then .ok () else .error .outOfBounds

/-- `comm_close`. -/
def commClose (ok : Bool) (fd : Nat) (c : Comm H D) : Except Trap (Comm H D) := do
  if fd = 0 then .error .assertion
  checkFd fd c
  .ok (closeFd fd (epollSetEvents ok fd false false (setEntry fd (fun _ => Fde.zero) c)))

/-- `commUpdateReadHandler`. -/
def commUpdateReadHandler (ok : Bool) (fd : Nat) (handler : Option H) (data : Option D)
    (c : Comm H D) : Except Trap (Comm H D) := do
  checkFd fd c
  .ok (epollSetEvents ok fd true false
    (setEntry fd (fun F => { F with readHandler := handler, readData := data }) c))

/-- `commUpdateWriteHandler`. -/
def commUpdateWriteHandler (ok : Bool) (fd : Nat) (handler : Option H) (data : Option D)
    (c : Comm H D) : Except Trap (Comm H D) := do
  checkFd fd c
  .ok (epollSetEvents ok fd false true
    (setEntry fd (fun F => { F with writeHandler := handler, writeData := data }) c))

/-- The entry after `commSetTimeout` with a deadline; a NULL handler and NULL data
    leave the old ones. -/
def Fde.arm (handler : Option H) (data : Option D) (deadline : Int) (F : Fde H D) : Fde H D :=
  let F := if handler.isSome ∨ data.isSome then
      { F with timeoutHandler := handler, timeoutData := data }
    else F
  { F with timeout := deadline }

/-- The entry after `commSetTimeout` with a negative timeout. -/
def Fde.disarm (F : Fde H D) : Fde H D :=
  { F with timeoutHandler := none, timeoutData := none, timeout := 0 }

/-- `commSetTimeout`. -/
def commSetTimeout (fd : Nat) (timeout : Int) (handler : Option H) (data : Option D)
    (c : Comm H D) : Except Trap (Comm H D) :=
  if c.biggestFd ≤ fd then .error .assertion
  else if timeout < 0 then .ok (setEntry fd Fde.disarm c)
  else if handler.isNone ∧ (c.fdTable fd).timeoutHandler.isNone then .error .assertion
  else
    let c := setEntry fd (Fde.arm handler data (c.sysCurtime + timeout)) c
    .ok { c with log := .setTimeout fd timeout c.clock :: c.log }

/-- `comm_init`: the tables are zero, and so is the cached time. -/
def commInit (maxFd : Nat) (isOpen : Nat → Bool) (clock : Int) : Comm H D where
  biggestFd := if 0 < maxFd then maxFd else 1024
  fdTable := fun _ => Fde.zero
  sysCurtime := 0
  epollState := fun _ => 0
  epollFds := 0
  isOpen := isOpen
  interest := fun _ => none
  clock := clock
  log := []

end LinuxCodeDemos.Epoll

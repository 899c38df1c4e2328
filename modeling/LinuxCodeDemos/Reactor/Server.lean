/-
  LinuxCodeDemos.Reactor.Server

  The echo server of `socket/simple_epoll_demo/Reactor.c`.

  - `g_events` is a function of the slot; slot `MAX_EVENTS` is the listening
    socket.
  - The kernel holds the open descriptors, each with the number of its
    connection, and the epoll registrations.  Connection numbers are never used
    again, descriptor numbers are.
  - The loop is cut into steps: one entry of the timeout scan, `epoll_wait`, and
    the two callback tests of an event.
  - What the clients send is a sequence of chunks per connection; everything else
    that the world decides (order, descriptors, failures, time) is the input.
  - `buf[len] = 0` with `len = 256` hits the low byte of the field `len`, which
    follows `buf`.
-/

import Mathlib.Logic.Function.Basic
import Mathlib.Data.List.Pairwise
import LinuxCodeDemos.Lib.Memory
import LinuxCodeDemos.Lib.Run

namespace LinuxCodeDemos.Reactor

open Lib
open Function (update)

def maxEvents : Nat := 1024
def bufLen : Nat := 256

def epollIn : UInt32 := 0x001
def epollOut : UInt32 := 0x004
def epollErr : UInt32 := 0x008
def epollHup : UInt32 := 0x010

/-- The three callbacks. -/
inductive CallBack where
  | acceptconn
  | recvdata
  | senddata
  deriving DecidableEq, Repr

/-- `struct myevent_s`; `arg` is the number of the slot it points at. -/
structure MyEvent where
  fd : Nat
  events : UInt32
  arg : Nat
  callBack : Option CallBack
  status : Bool
  buf : List UInt8
  len : Nat
  lastActive : Int
  deriving DecidableEq, Repr

/-- A slot at the start. -/
def MyEvent.zero : MyEvent :=
  { fd := 0, events := 0, arg := 0, callBack := none, status := false
    buf := List.replicate bufLen 0, len := 0, lastActive := 0 }

/-- What `recv` returns at most: at least one byte, and no more than it asked for. -/
structure Chunk where
  bytes : List UInt8
  ne_nil : bytes ≠ []
  le_bufLen : bytes.length ≤ bufLen

/-- What the clients send: the chunks of every connection. -/
abbrev Clients := Nat → Nat → Chunk

/-- The traffic of the connections. -/
inductive Traffic where
  | recv (conn : Nat) (bytes : List UInt8)
  | send (conn : Nat) (bytes : List UInt8)
  deriving DecidableEq, Repr

/-- The kernel's side. -/
structure Kernel where
  /-- The connection behind an open descriptor. -/
  opened : Nat → Option Nat
  /-- The registrations of `g_efd`: `data.ptr` and the mask. -/
  registered : Nat → Option (Nat × UInt32)
  next : Nat

/-- The place in the loop of `main`. -/
inductive Control where
  | scan (i : Nat)
  | wait
  | input (batch : List (Nat × UInt32))
  | output (slot : Nat) (bits : UInt32) (batch : List (Nat × UInt32))
  | stopped
  deriving DecidableEq, Repr

/-- The server; the latest traffic stands first in the log. -/
structure Server where
  slots : Nat → MyEvent
  kernel : Kernel
  checkpos : Nat
  now : Int
  control : Control
  log : List Traffic

/-- The result of a `recv`. -/
inductive RecvKind where
  | data
  | closed
  | error
  deriving DecidableEq, Repr

/-- What the world decides during a step. -/
structure Input where
  time : Int
  /-- The descriptors that are ready and their events, `none` if `epoll_wait` fails. -/
  wait : Option (List (Nat × UInt32))
  accepted : Option Nat
  fcntl : Bool
  recv : RecvKind
  sent : Int
  deriving DecidableEq, Repr

/-- A call through a NULL pointer. -/
inductive Crash where
  | nullCall
  deriving DecidableEq, Repr

-- ============================================================================
-- System calls
-- ============================================================================

namespace Kernel

/-- `close`: the descriptor leaves `g_efd` too. -/
def close (fd : Nat) (k : Kernel) : Kernel :=
  { k with opened := update k.opened fd none, registered := update k.registered fd none }

/-- `EPOLL_CTL_ADD` of an open descriptor that is not registered. -/
def ctlAdd (fd slot : Nat) (events : UInt32) (k : Kernel) : Kernel :=
  if (k.opened fd).isSome ∧ k.registered fd = none then
    { k with registered := update k.registered fd (some (slot, events)) }
  else k

/-- `EPOLL_CTL_MOD` of a registered descriptor. -/
def ctlMod (fd slot : Nat) (events : UInt32) (k : Kernel) : Kernel :=
  if (k.registered fd).isSome then
    { k with registered := update k.registered fd (some (slot, events)) }
  else k

/-- `EPOLL_CTL_DEL`; without a registration it fails. -/
def ctlDel (fd : Nat) (k : Kernel) : Kernel :=
  { k with registered := update k.registered fd none }

/-- A new connection on a descriptor that is not open. -/
def accept (choice : Option Nat) (k : Kernel) : Option (Nat × Kernel) :=
  match choice with
  | none => none
  | some fd =>
      if (k.opened fd).isSome then none
      else some (fd, { k with opened := update k.opened fd (some k.next), next := k.next + 1 })

/-- `epoll_wait`: every descriptor at most once, with the events it is registered
    for and errors. -/
def wait (ready : List (Nat × UInt32)) (k : Kernel) : List (Nat × UInt32) :=
  (ready.pwFilter fun a b => a.1 ≠ b.1).filterMap fun event =>
    (k.registered event.1).map fun reg =>
      (reg.1, event.2 &&& (reg.2 ||| (epollErr ||| epollHup)))

end Kernel

-- ============================================================================
-- The server
-- ============================================================================

namespace Server

/-- `g_events[slot] = ..`. -/
def setSlot (slot : Nat) (f : MyEvent → MyEvent) (s : Server) : Server :=
  { s with slots := update s.slots slot (f (s.slots slot)) }

def setKernel (f : Kernel → Kernel) (s : Server) : Server := { s with kernel := f s.kernel }

/-- `eventset`; `buf` and `len` stay as they are. -/
def eventset (slot fd : Nat) (callBack : CallBack) (time : Int) (s : Server) : Server :=
  s.setSlot slot fun ev => { ev with
    fd, callBack := some callBack, events := 0, arg := slot, status := false, lastActive := time }

/-- `eventadd`. -/
def eventadd (events : UInt32) (slot : Nat) (s : Server) : Server :=
  let ev := s.slots slot
  let s := s.setSlot slot fun ev => { ev with events, status := true }
  if ev.status then s.setKernel (Kernel.ctlMod ev.fd slot events)
  else s.setKernel (Kernel.ctlAdd ev.fd slot events)

/-- `eventdel`. -/
def eventdel (slot : Nat) (s : Server) : Server :=
  if (s.slots slot).status then
    (s.setSlot slot fun ev => { ev with status := false }).setKernel
      (Kernel.ctlDel (s.slots slot).fd)
  else s

/-- The first slot with status 0, if one of the first `MAX_EVENTS` has it. -/
def freeSlot (s : Server) : Option Nat :=
  (List.range maxEvents).find? fun slot => (s.slots slot).status = false

/-- `acceptconn`.  A descriptor for which there is no slot, or whose `fcntl` fails,
    stays open. -/
def acceptconn (i : Input) (s : Server) : Server :=
  match s.kernel.accept i.accepted with
  | none => s
  | some (cfd, kernel) =>
      let s := { s with kernel }
      match s.freeSlot with
      | none => s
      | some slot =>
          if i.fcntl then (s.eventset slot cfd .recvdata i.time).eventadd epollIn slot
          else s

/-- How many chunks of a connection have been received. -/
def chunksRead (conn : Nat) (log : List Traffic) : Nat :=
  log.countP fun t => match t with
    | .recv c _ => c = conn
    | .send _ _ => false

/-- `buf` and `len` after `recv`, `ev->len = len` and `ev->buf[len] = 0`. -/
def fillBuf (bytes : List UInt8) (ev : MyEvent) : MyEvent :=
  let buf := splice ev.buf 0 bytes
  if bytes.length < bufLen then { ev with buf := buf.set bytes.length 0, len := bytes.length }
  else { ev with buf, len := bytes.length / 256 * 256 }

/-- `recvdata`. -/
def recvdata (clients : Clients) (fd slot : Nat) (i : Input) (s : Server) : Server :=
  match i.recv, s.kernel.opened fd with
  | .data, some conn =>
      let chunk := clients conn (chunksRead conn s.log)
      let s := { s with log := .recv conn chunk.bytes :: s.log }
      let s := (s.eventdel slot).setSlot slot (fillBuf chunk.bytes)
      (s.eventset slot fd .senddata i.time).eventadd epollOut slot
  | _, _ =>
      let s := s.eventdel slot
      s.setKernel (Kernel.close (s.slots slot).fd)

/-- `senddata`. -/
def senddata (fd slot : Nat) (i : Input) (s : Server) : Server :=
  let ev := s.slots slot
  let s := match s.kernel.opened fd with
    | some conn => { s with log := .send conn (ev.buf.take ev.len) :: s.log }
    | none => s
  let s := s.eventdel slot
  if 0 < i.sent then (s.eventset slot fd .recvdata i.time).eventadd epollIn slot
  else s.setKernel (Kernel.close (s.slots slot).fd)

/-- `ev->call_back (ev->fd, .., ev->arg)`. -/
def callBack (clients : Clients) (slot : Nat) (i : Input) (s : Server) : Except Crash Server :=
  let ev := s.slots slot
  match ev.callBack with
  | none => .error .nullCall
  | some .acceptconn => .ok (s.acceptconn i)
  | some .recvdata => .ok (s.recvdata clients ev.fd ev.arg i)
  | some .senddata => .ok (s.senddata ev.fd ev.arg i)

/-- One turn of the timeout scan. -/
def scanTurn (s : Server) : Server :=
  let s := if s.checkpos = maxEvents then { s with checkpos := 0 } else s
  let ev := s.slots s.checkpos
  let s := { s with checkpos := s.checkpos + 1 }
  if ev.status ∧ 60 ≤ s.now - ev.lastActive then
    (s.setKernel (Kernel.close ev.fd)).eventdel (s.checkpos - 1)
  else s

/-- One step of the loop of `main`. -/
def step (clients : Clients) (s : Server) (i : Input) : Except Crash Server :=
  match s.control with
  | .scan n =>
      -- `now` is read before the scan
      let s := if n = 0 then { s with now := i.time } else s
      if n < 100 then .ok { s.scanTurn with control := .scan (n + 1) }
      else .ok { s with control := .wait }
  | .wait =>
      match i.wait with
      | none => .ok { s with control := .stopped }
      | some ready => .ok { s with control := .input (s.kernel.wait ready) }
  | .input [] => .ok { s with control := .scan 0 }
  | .input ((slot, bits) :: batch) => do
      let s ← if bits &&& epollIn ≠ 0 ∧ (s.slots slot).events &&& epollIn ≠ 0 then
          s.callBack clients slot i
        else .ok s
      .ok { s with control := .output slot bits batch }
  | .output slot bits batch => do
      let s ← if bits &&& epollOut ≠ 0 ∧ (s.slots slot).events &&& epollOut ≠ 0 then
          s.callBack clients slot i
        else .ok s
      .ok { s with control := .input batch }
  | .stopped => .ok s

/-- `initlistensocket` on zeroed tables. -/
def start (lfd : Nat) (isOpen : Nat → Bool) (time : Int) : Server :=
  let s : Server :=
    { slots := fun _ => MyEvent.zero
      kernel :=
        { opened := update (fun fd => if isOpen fd then some 0 else none) lfd (some 0)
          registered := fun _ => none
          next := 1 }
      checkpos := 0
      now := time
      control := .scan 0
      log := [] }
  (s.eventset maxEvents lfd .acceptconn time).eventadd epollIn maxEvents

/-- A run: the server after these inputs. -/
def run (clients : Clients) (lfd : Nat) (isOpen : Nat → Bool) (time : Int) (inputs : List Input) :
    Except Crash Server := runSteps (step clients) (start lfd isOpen time) inputs

end Server

end LinuxCodeDemos.Reactor

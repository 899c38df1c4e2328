/-
  LinuxCodeDemos.PollServer.Server

  The server of `socket/poll_server.cpp`.

  - The vector `fds` is scanned by index while `accept` appends to it.
  - The loop is cut into steps: `poll`, one entry of the scan, and the sweep behind
    the last entry, which ends the iteration.
  - A descriptor that is closed may be returned by a later `accept`; connections have
    numbers that are not used again (`Lib.Handles`), and the listening socket is
    connection 0.
  - `errno` is part of the state.  A call that fails sets it, `recv` leaves it alone
    when it returns 0, and the calls whose result nothing tests (`close`, the output
    streams) may leave any value there.
-/

import LinuxCodeDemos.Lib.Handles
import LinuxCodeDemos.Lib.Run

namespace LinuxCodeDemos.PollServer

open Lib

def invalidFd : Int := -1

def pollIn : UInt16 := 0x001

def eintr : Nat := 4
def ewouldblock : Nat := 11

/-- `struct pollfd`. -/
structure PollFd where
  fd : Int
  events : UInt16
  revents : UInt16
  deriving DecidableEq, Repr

/-- An entry as the server makes it. -/
def PollFd.new (fd : Int) : PollFd := { fd, events := pollIn, revents := 0 }

/-- Where the server is: before `poll`, at an entry of the scan, or behind the loop. -/
inductive Control where
  | poll
  | scan (index : Nat)
  | stopped
  deriving DecidableEq, Repr

/-- What `poll` returns: -1, 0, or the `revents` of every entry. -/
inductive Polled where
  | failed (errno : Nat)
  | timeout
  | ready (revents : Nat → UInt16)

/-- What `recv` returns: a positive length, 0, or -1. -/
inductive Received where
  | data
  | closed
  | failed (errno : Nat)
  deriving DecidableEq, Repr

/-- What the world decides about one step. -/
structure Input where
  polled : Polled
  /-- The descriptor that `accept` returns, or its `errno`. -/
  accepted : Except Nat Nat
  /-- `fcntl` with `F_SETFL` succeeds. -/
  fcntl : Bool
  received : Received
  /-- What the untested calls of the step leave in `errno`, if anything. -/
  stray : Option Nat

structure Server where
  fds : List PollFd
  existInvalidFd : Bool
  errno : Nat
  control : Control
  handles : Handles Int
  /-- Every connection that `accept` has returned, in this order. -/
  accepted : List (Accepted Int)
  /-- The connection behind the descriptor of every call of `close`. -/
  closes : List (Option Nat)
  /-- The clients on which `recv` has returned 0 in this iteration. -/
  gone : List (Accepted Int)

/-- The program has returned. -/
inductive Exit where
  | returned
  deriving DecidableEq, Repr

-- ============================================================================
-- The vector
-- ============================================================================

/-- The search for the entry to give up: the first one with this descriptor. -/
def invalidate (fd : Int) : List PollFd → Option (List PollFd)
  | [] => none
  | entry :: entries =>
      if entry.fd = fd then some ({ entry with fd := invalidFd } :: entries)
      else (invalidate fd entries).map (entry :: ·)

/-- The pass that erases the invalid entries. -/
def sweep : List PollFd → List PollFd
  | [] => []
  | entry :: entries => if entry.fd = invalidFd then sweep entries else entry :: sweep entries

-- ============================================================================
-- Calls
-- ============================================================================

namespace Server

/-- `close(fd)`. -/
def close (s : Server) (fd : Int) : Server :=
  { s with handles := s.handles.close fd, closes := s.closes ++ [s.handles.opened fd] }

/-- `accept`: the kernel picks a descriptor that is not open. -/
def accept (s : Server) (i : Input) : Server × Option Int :=
  match i.accepted with
  | .error errno => ({ s with errno }, none)
  | .ok fd =>
      if s.handles.opened fd = none then
        ({ s with
            handles := s.handles.take fd
            accepted := s.accepted ++ [⟨s.handles.next, fd⟩] }, some fd)
      else (s, none)

/-- The branch of the listening entry. -/
def acceptClient (s : Server) (i : Input) : Server :=
  match s.accept i with
  | (s, none) => s
  | (s, some clientfd) =>
      if i.fcntl then { s with fds := s.fds ++ [.new clientfd] } else s.close clientfd

/-- `recv` has returned 0 on this descriptor. -/
def noteGone (s : Server) (fd : Int) : Server :=
  match s.handles.opened fd with
  | none => s
  | some conn => { s with gone := s.gone ++ [⟨conn, fd⟩] }

/-- What follows a `recv` that returned 0 or -1. -/
def dropClient (s : Server) (fd : Int) : Server :=
  if s.errno ≠ eintr ∧ s.errno ≠ ewouldblock then
    match invalidate fd s.fds with
    | none => s
    | some fds => { s.close fd with fds, existInvalidFd := true }
  else s

/-- The branch of a client's entry. -/
def readClient (s : Server) (fd : Int) (i : Input) : Server :=
  match i.received with
  | .data => s
  | .closed => (s.noteGone fd).dropClient fd
  | .failed errno => { s with errno }.dropClient fd

/-- The body of the scan for one entry.  The branch of `POLLERR` is empty. -/
def scanEntry (listenfd : Nat) (s : Server) (entry : PollFd) (i : Input) : Server :=
  if entry.revents &&& pollIn ≠ 0 then
    if entry.fd = listenfd then s.acceptClient i else s.readClient entry.fd i
  else s

/-- The end of an iteration. -/
def endScan (s : Server) : Server :=
  { s with fds := if s.existInvalidFd then sweep s.fds else s.fds, control := .poll }

/-- The loop behind the `while`. -/
def closeAll (s : Server) : Server :=
  s.fds.foldl (fun s entry => s.close entry.fd) { s with control := .stopped }

/-- The `revents` of every entry as `poll` sets them. -/
def setRevents (s : Server) (revents : Nat → UInt16) : List PollFd :=
  s.fds.mapIdx fun index entry => { entry with revents := revents index }

/-- From the start of an iteration to its scan. -/
def pollStep (s : Server) (i : Input) : Server :=
  let s := { s with existInvalidFd := false, gone := [] }
  match i.polled with
  | .failed errno => if errno = eintr then { s with errno } else { s with errno }.closeAll
  | .timeout => { s with fds := s.setRevents fun _ => 0 }
  | .ready revents => { s with fds := s.setRevents revents, control := .scan 0 }

/-- One step. -/
def step (listenfd : Nat) (s : Server) (i : Input) : Except Exit Server :=
  let leave (s : Server) : Except Exit Server := .ok { s with errno := i.stray.getD s.errno }
  match s.control with
  | .poll => leave (s.pollStep i)
  | .scan index =>
      match s.fds[index]? with
      | none => leave s.endScan
      | some entry => leave { s.scanEntry listenfd entry i with control := .scan (index + 1) }
  | .stopped => .error .returned

/-- The server before its loop. -/
def start (listenfd errno : Nat) : Server :=
  { fds := [.new listenfd], existInvalidFd := false, errno, control := .poll
    handles := .single listenfd
    accepted := [], closes := [], gone := [] }

end Server

end LinuxCodeDemos.PollServer

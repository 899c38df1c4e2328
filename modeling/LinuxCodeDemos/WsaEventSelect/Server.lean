/-
  LinuxCodeDemos.WsaEventSelect.Server

  The server of `win-socket/WSAEventSelect/WSAEventSelect.cpp`.

  - `pSockets` and `pEvents` are two arrays of `dwCount` entries each, replaced by longer ones
    while the scan runs over them and by shorter ones behind it.
  - The loop is cut into steps: the wait, one entry of the scan, and the removal behind the last
    entry, which ends the iteration.
  - Sockets have connection numbers (`Lib.Handles`); the listening socket is connection 0.  An
    event object belongs to the connection that `WSAEventSelect` was called for with it.
  - `WSAEnumNetworkEvents` reports any bits, but `FD_CLOSE` once per connection only.
  - The data that `recv` returns is only printed and is left out.
-/

import LinuxCodeDemos.Lib.Handles
import LinuxCodeDemos.Lib.Memory
import LinuxCodeDemos.Lib.Run

namespace LinuxCodeDemos.WsaEventSelect

open Lib
open Function (update)

/-- `INVALID_SOCKET`, which is also `SOCKET_ERROR` as a `SOCKET`. -/
def invalidSocket : Nat := 2 ^ 64 - 1

def fdRead : UInt32 := 0x01
def fdAccept : UInt32 := 0x08
def fdClose : UInt32 := 0x20

/-- `WSANETWORKEVENTS`, with the two error codes that the server looks at. -/
structure NetworkEvents where
  lNetworkEvents : UInt32
  acceptError : Int
  readError : Int
  deriving DecidableEq, Repr

/-- Where the server is: before the wait, or at an entry of the scan up to `dwIndex`. -/
inductive Control where
  | wait
  | scan (index dwIndex : Nat)
  deriving DecidableEq, Repr

/-- What the world decides about one step. -/
structure Input where
  /-- The index that the wait returns; `none` for `WSA_WAIT_FAILED`. -/
  waited : Option Nat
  /-- What `WSAEnumNetworkEvents` reports; `none` for `SOCKET_ERROR`. -/
  triggered : Option NetworkEvents
  /-- The socket that `accept` returns. -/
  accepted : Option Nat
  /-- The event object that `WSACreateEvent` returns. -/
  created : Nat
  /-- `WSAEventSelect` succeeds. -/
  selected : Bool

structure Server where
  pSockets : List Nat
  pEvents : List Nat
  dwCount : Nat
  bNeedToMove : Bool
  control : Control
  sockets : Handles Nat
  /-- The connection that an event object was selected for. -/
  events : Nat → Option Nat
  /-- The connections whose `FD_CLOSE` has been reported. -/
  reported : List Nat
  /-- Those of them whose `FD_CLOSE` was reported in this iteration. -/
  closing : List Nat

/-- The loop that collects the valid entries. -/
def validEntries : List Nat → List Nat → List Nat × List Nat
  | socket :: pSockets, event :: pEvents =>
      let (vValidSockets, vValidEvents) := validEntries pSockets pEvents
      if socket ≠ invalidSocket then (socket :: vValidSockets, event :: vValidEvents)
      else (vValidSockets, vValidEvents)
  | _, _ => ([], [])

namespace Server

/-- `WSAEnumNetworkEvents`: the bits that it reports for a socket. -/
def enumNetworkEvents (s : Server) (socket : Nat) (i : Input) : Option (Nat × NetworkEvents) :=
  match s.sockets.opened socket, i.triggered with
  | some conn, some triggered =>
      if conn ∈ s.reported then
        some (conn, { triggered with lNetworkEvents := triggered.lNetworkEvents &&& ~~~fdClose })
      else some (conn, triggered)
  | _, _ => none

/-- `accept(sockSrv)`: while the listening socket is open, a socket that is not in use. -/
def accept (sockSrv : Nat) (s : Server) (i : Input) : Option Nat :=
  match i.accepted with
  | none => none
  | some socket =>
      if s.sockets.opened sockSrv = some 0 ∧ s.sockets.opened socket = none ∧ socket ≠ invalidSocket
      then some socket else none

/-- The branch of `FD_ACCEPT`. -/
def acceptClient (sockSrv : Nat) (s : Server) (i : Input) (triggered : NetworkEvents) : Server :=
  if triggered.acceptError ≠ 0 then s
  else
    match s.accept sockSrv i with
    | none => s
    | some hSockClient =>
        let sockets := s.sockets.take hSockClient
        if i.selected ∧ s.events i.created = none then
          { s with
            sockets
            events := update s.events i.created (some s.sockets.next)
            pEvents := s.pEvents.take s.dwCount ++ [i.created]
            pSockets := s.pSockets.take s.dwCount ++ [hSockClient]
            dwCount := s.dwCount + 1 }
        else { s with sockets := sockets.close hSockClient }

/-- The branch of `FD_CLOSE`. -/
def closeClient (s : Server) (index socket event : Nat) : Server :=
  { s with
    events := update s.events event none
    sockets := s.sockets.close socket
    pSockets := s.pSockets.set index invalidSocket
    bNeedToMove := true }

/-- `FD_CLOSE` has been reported for a connection. -/
def noteClose (s : Server) (conn : Nat) (triggered : NetworkEvents) : Server :=
  if triggered.lNetworkEvents &&& fdClose ≠ 0 then
    { s with reported := conn :: s.reported, closing := conn :: s.closing }
  else s

/-- The body of the scan for one entry.  The branch of `FD_READ` changes nothing. -/
def scanEntry (sockSrv : Nat) (s : Server) (index socket event : Nat) (i : Input) : Server :=
  match s.enumNetworkEvents socket i with
  | none => s
  | some (conn, triggered) =>
      let s := s.noteClose conn triggered
      if triggered.lNetworkEvents &&& fdAccept ≠ 0 then s.acceptClient sockSrv i triggered
      else if triggered.lNetworkEvents &&& fdRead ≠ 0 then s
      else if triggered.lNetworkEvents &&& fdClose ≠ 0 then s.closeClient index socket event
      else s

/-- The removal of the invalid entries. -/
def endScan (s : Server) : Server :=
  let s := { s with control := .wait }
  if s.bNeedToMove then
    let (vValidSockets, vValidEvents) :=
      validEntries (s.pSockets.take s.dwCount) (s.pEvents.take s.dwCount)
    let validSize := vValidSockets.length
    if validSize > 0 then
      { s with pEvents := vValidEvents, pSockets := vValidSockets, dwCount := validSize }
    else s
  else s

/-- From the start of an iteration to its scan. -/
def waitStep (s : Server) (i : Input) : Server :=
  let s := { s with bNeedToMove := false, closing := [] }
  match i.waited with
  | none => s
  | some dwIndex => if dwIndex < s.dwCount then { s with control := .scan 0 dwIndex } else s

/-- One step. -/
def step (sockSrv : Nat) (s : Server) (i : Input) : Except Fault Server :=
  match s.control with
  | .wait => .ok (s.waitStep i)
  | .scan index dwIndex =>
      if index ≤ dwIndex then
        match s.pSockets[index]?, s.pEvents[index]? with
        | some socket, some event =>
            .ok { s.scanEntry sockSrv index socket event i with
              control := .scan (index + 1) dwIndex }
        | _, _ => .error .read
      else .ok s.endScan

/-- The server before its loop. -/
def start (sockSrv hListenEvent : Nat) : Server :=
  { pSockets := [sockSrv], pEvents := [hListenEvent], dwCount := 1, bNeedToMove := false
    control := .wait
    sockets := .single sockSrv
    events := fun event => if event = hListenEvent then some 0 else none
    reported := [], closing := [] }

end Server

end LinuxCodeDemos.WsaEventSelect

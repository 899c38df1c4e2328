/-
  LinuxCodeDemos.WsaAsyncSelect.Window

  The window procedure of `win-socket/WSAAsyncSelect/WSAAsyncSelect.cpp` for `WM_SOCKET`.

  - A message names a socket by its handle.  Handles are given out again, so every message of a
    client carries the connection that it was posted for as well (`Lib.Handles`); the code sees
    the handle only.
  - Messages of a client are posted once `WSAAsyncSelect` has succeeded for it, in any order and
    also when its socket has been closed meanwhile, `FD_CLOSE` once per connection.
  - `recv` on a handle that is not open fails.
-/

import LinuxCodeDemos.Lib.Handles
import LinuxCodeDemos.Lib.Memory
import LinuxCodeDemos.Lib.Run

namespace LinuxCodeDemos.WsaAsyncSelect

open Lib

/-- The event of a message, with what the calls of its handler return. -/
inductive SocketEvent where
  /-- `FD_ACCEPT`: the socket that `accept` returns, and whether `WSAAsyncSelect` succeeds. -/
  | accept (hSockClient : Option Nat) (selected : Bool)
  /-- `FD_READ`: the result of `recv`. -/
  | read (client : Accepted Nat) (received : Int)
  /-- `FD_CLOSE`. -/
  | close (client : Accepted Nat)
  deriving DecidableEq, Repr

/-- A `WM_SOCKET` message: `WSAGETSELECTERROR` and `WSAGETSELECTEVENT` of its `lParam`. -/
structure Message where
  nErrorCode : UInt16
  nEventType : SocketEvent
  deriving DecidableEq, Repr

structure Window where
  gnCount : Int
  sockets : Handles Nat
  /-- Every connection that `accept` has returned, in this order. -/
  accepted : List (Accepted Nat)
  /-- Those for which `WSAAsyncSelect` has succeeded. -/
  selected : List (Accepted Nat)
  /-- The connections whose `FD_CLOSE` has been dispatched. -/
  closeSeen : List Nat
  /-- The connections whose messages have led to `closesocket`, once per call. -/
  closeCalls : List Nat
  /-- The connections that these calls have closed: those behind the handle. -/
  closed : List Nat

namespace Window

/-- Messages that Winsock may post. -/
def Posts (w : Window) (m : Message) : Prop :=
  match m.nEventType with
  | .accept _ _ => True
  | .read client _ => client ∈ w.selected
  | .close client => client ∈ w.selected ∧ client.conn ∉ w.closeSeen

instance (w : Window) (m : Message) : Decidable (w.Posts m) :=
  match h : m.nEventType with
  | .accept _ _ => .isTrue (by rw [Posts, h]; trivial)
  | .read client _ => decidable_of_iff (client ∈ w.selected) (by rw [Posts, h])
  | .close client =>
      decidable_of_iff (client ∈ w.selected ∧ client.conn ∉ w.closeSeen) (by rw [Posts, h])

/-- An assignment to `g_nCount`. -/
def setCount (w : Window) (count : Int) : Except Fault Window := do
  let gnCount ← checkInt count
  .ok { w with gnCount }

/-- `closesocket`, called for a client; it closes what has the handle now. -/
def closesocket (w : Window) (client : Accepted Nat) : Window :=
  { w with
    sockets := w.sockets.close client.handle
    closeCalls := client.conn :: w.closeCalls
    closed := (w.sockets.opened client.handle).toList ++ w.closed }

/-- `recv`. -/
def recv (w : Window) (socket : Nat) (received : Int) : Int :=
  if w.sockets.opened socket = none then -1 else received

/-- The branch of `FD_ACCEPT`: `accept` returns a socket that is not in use. -/
def onAccept (w : Window) (hSockClient : Option Nat) (selected : Bool) : Except Fault Window :=
  match hSockClient with
  | none => .ok w
  | some socket =>
      if w.sockets.opened socket = none then
        let client : Accepted Nat := ⟨w.sockets.next, socket⟩
        let w := { w with sockets := w.sockets.take socket, accepted := w.accepted ++ [client] }
        if selected then
          { w with selected := client :: w.selected }.setCount (w.gnCount + 1)
        else .ok (w.closesocket client)
      else .ok w

/-- What both branches do with a client that has gone. -/
def onGone (w : Window) (client : Accepted Nat) : Except Fault Window := do
  let w ← w.setCount (w.gnCount - 1)
  .ok (w.closesocket client)

def onSocketEvent (w : Window) (m : Message) : Except Fault Window :=
  if m.nErrorCode ≠ 0 then .ok w
  else
    match m.nEventType with
    | .accept hSockClient selected => w.onAccept hSockClient selected
    | .read client received =>
        if w.recv client.handle received > 0 then .ok w else w.onGone client
    | .close client => w.onGone client

/-- `FD_CLOSE` is dispatched. -/
def noteClose (w : Window) (m : Message) : Window :=
  match m.nEventType with
  | .close client => { w with closeSeen := client.conn :: w.closeSeen }
  | _ => w

/-- One message is dispatched. -/
def step (w : Window) (m : Message) : Except Fault Window :=
  if w.Posts m then (w.noteClose m).onSocketEvent m else .ok w

/-- The window when the listening socket has been made. -/
def start (hListenSocket : Nat) : Window :=
  { gnCount := 0
    sockets := .single hListenSocket
    accepted := [], selected := [], closeSeen := [], closeCalls := [], closed := [] }

end Window

end LinuxCodeDemos.WsaAsyncSelect

/-
  LinuxCodeDemos.Epoll.EchoServer

  The echo server of `epoll_framework/main.c`: its five handlers and the heap of
  connection blocks.

  - Blocks are numbered in the order of `malloc`, so a number is never used
    again, and a freed block has no content any more.
  - `stat_init` returns the block it allocates.
  - Calling a handler with a freed block is `Trap.useAfterFree`, freeing it again
    `Trap.doubleFree`; a NULL block may be passed around and freed.
  - Nothing follows from a `read` or `write` that fails or falls short but a message.  The message
    itself can crash the program (`fprintf` without a stream, an `int` for `%s`, `strerror` without
    a declaration); the runs here go on behind it.
-/

import LinuxCodeDemos.Lib.Memory
import LinuxCodeDemos.Epoll.Loop

namespace LinuxCodeDemos.Epoll

open Lib
open Function (update)

/-- The handlers of the server. -/
inductive Handler where
  | acceptConnection
  | doWelcomeHandler
  | doEchoHandler
  | doEchoResponse
  | doEchoTimeout
  deriving DecidableEq, Repr

/-- `ConnectStat`, without the field that nothing uses. -/
structure ConnectStat where
  fd : Nat
  sendBuf : List UInt8
  deriving DecidableEq, Repr

/-- The heap, and what `write` has taken on each descriptor, the latest first. -/
structure EchoApp where
  heap : Nat → Option ConnectStat
  next : Nat
  written : List (Nat × List UInt8)

/-- The results of the system calls of a handler. -/
structure Reply where
  /-- The descriptor of `accept`, `none` if it fails. -/
  accepted : Option Nat
  /-- `malloc` succeeds. -/
  allocated : Bool
  /-- What `read` finds: `none` for an error, nothing at the end. -/
  incoming : Option (List UInt8)
  /-- The result of `write`. -/
  sent : Int
  deriving DecidableEq, Repr

abbrev EchoWorld := World Handler Nat EchoApp

abbrev EchoLoop := Loop Handler Nat EchoApp

def bufLen : Nat := 1024

/-- The bytes of "Welcome.\n". -/
def welcome : List UInt8 := [87, 101, 108, 99, 111, 109, 101, 46, 10]

/-- `stat_init`. -/
def statInit (allocated : Bool) (fd : Nat) (app : EchoApp) : EchoApp × Option Nat :=
  if allocated then
    ({ app with
       heap := update app.heap app.next (some { fd, sendBuf := List.replicate bufLen 0 })
       next := app.next + 1 }, some app.next)
  else (app, none)

/-- `free`. -/
def free (data : Option Nat) (w : EchoWorld) : Except Trap EchoWorld :=
  match data with
  | none => .ok w
  | some block =>
      if (w.app.heap block).isNone then .error .doubleFree
      else .ok { w with app := { w.app with heap := update w.app.heap block none } }

/-- `free` does not touch the framework; it can only fail on a block that is free already. -/
theorem free_comm (data : Option Nat) (w : EchoWorld) :
    Lib.Ends (fun w' => w'.comm = w.comm) (fun t => t = .doubleFree) (free data w) := by
  cases data with
  | none => rfl
  | some block =>
      rw [free]
      split
      · rfl
      · rfl

/-- A call into the framework. -/
def onComm (f : Comm Handler Nat → Except Trap (Comm Handler Nat)) (w : EchoWorld) :
    Except Trap EchoWorld := do
  let comm ← f w.comm
  .ok { w with comm }

/-- `comm_close (fd); free (stat)`. -/
def closeAndFree (fd : Nat) (data : Option Nat) (i : Input Reply) (w : EchoWorld) :
    Except Trap EchoWorld := do
  let w ← onComm (commClose i.ctl fd) w
  free data w

/-- The kernel's `accept`: a descriptor that is not open. -/
def acceptFd (choice : Option Nat) (c : Comm Handler Nat) : Option Nat :=
  choice.filter fun fd => !c.isOpen fd

/-- `accept_connection`. -/
def acceptConnection (i : Input Reply) (w : EchoWorld) : Except Trap EchoWorld :=
  match acceptFd i.reply.accepted w.comm with
  | none => .ok w
  | some newFd =>
      let w := { w with comm := { w.comm with isOpen := update w.comm.isOpen newFd true } }
      if 0 < newFd then do
        let (app, stat) := statInit i.reply.allocated newFd w.app
        let w := { w with app }
        let w ← onComm (commUpdateWriteHandler i.ctl newFd (some .doWelcomeHandler) stat) w
        onComm (commSetTimeout newFd 30 (some .doEchoTimeout) stat) w
      else .ok w

/-- `do_welcome_handler`; behind a short `write` the run goes on, though the `fprintf` there has no
    stream. -/
def doWelcomeHandler (fd : Nat) (data : Option Nat) (i : Input Reply) (w : EchoWorld) :
    Except Trap EchoWorld := do
  let w := { w with app := { w.app with
    written := (fd, welcome.take i.reply.sent.toNat) :: w.app.written } }
  if i.reply.sent = welcome.length then do
    let w ← onComm (commUpdateReadHandler i.ctl fd (some .doEchoHandler) data) w
    onComm (commSetTimeout fd 10 (some .doEchoTimeout) data) w
  else .ok w

/-- `tolower`. -/
def toLower (b : UInt8) : UInt8 := if 65 ≤ b ∧ b ≤ 90 then b + 32 else b

/-- `!strncasecmp (p, "quit", 4)` on the bytes that were read. -/
def isQuit (bytes : List UInt8) : Bool := (bytes.take 4).map toLower = [113, 117, 105, 116]

/-- `send_buf` after "->", the bytes and the NUL. -/
def fillSendBuf (buf bytes : List UInt8) : List UInt8 := splice buf 0 (45 :: 62 :: (bytes ++ [0]))

/-- Writes to the `send_buf` of a block. -/
def setSendBuf (block : Nat) (f : List UInt8 → List UInt8) (w : EchoWorld) : EchoWorld :=
  let stat := (w.app.heap block).map fun stat => { stat with sendBuf := f stat.sendBuf }
  { w with app := { w.app with heap := update w.app.heap block stat } }

/-- `do_echo_handler`; a failed `read` is followed by a message with `strerror`. -/
def doEchoHandler (fd : Nat) (data : Option Nat) (i : Input Reply) (w : EchoWorld) :
    Except Trap EchoWorld :=
  match data with
  | none => .error .assertion
  | some block =>
      match i.reply.incoming with
      | none => .ok (setSendBuf block (fun buf => splice buf 0 [45, 62]) w)
      | some incoming =>
          let bytes := incoming.take (bufLen - 2 - 1)
          if bytes = [] then
            closeAndFree fd data i (setSendBuf block (fun buf => splice buf 0 [45, 62]) w)
          else do
            let w := setSendBuf block (fun buf => fillSendBuf buf bytes) w
            if isQuit bytes then closeAndFree fd data i w
            else do
              let w ← onComm (commUpdateWriteHandler i.ctl fd (some .doEchoResponse) data) w
              onComm (commSetTimeout fd 10 (some .doEchoTimeout) data) w

/-- `do_echo_response`; a failed `write` is followed by a message that prints an `int` as text. -/
def doEchoResponse (fd : Nat) (data : Option Nat) (i : Input Reply) (w : EchoWorld) :
    Except Trap EchoWorld :=
  match data with
  | none => .error .nullPointer
  | some block => do
      let text := ((w.app.heap block).map fun stat => stat.sendBuf.takeWhile (· ≠ 0)).getD []
      let w := { w with app := { w.app with
        written := (fd, text.take i.reply.sent.toNat) :: w.app.written } }
      if 0 < i.reply.sent then do
        let w ← onComm (commSetTimeout fd 10 (some .doEchoTimeout) data) w
        onComm (commUpdateReadHandler i.ctl fd (some .doEchoHandler) data) w
      else if i.reply.sent = 0 then closeAndFree fd data i w
      else .ok w

/-- `do_echo_timeout`. -/
def doEchoTimeout (fd : Nat) (data : Option Nat) (i : Input Reply) (w : EchoWorld) :
    Except Trap EchoWorld := closeAndFree fd data i w

/-- The code behind a handler pointer. -/
def runHandler (handler : Handler) (fd : Nat) (data : Option Nat) (i : Input Reply)
    (w : EchoWorld) : Except Trap EchoWorld :=
  match handler with
  | .acceptConnection => acceptConnection i w
  | .doWelcomeHandler => doWelcomeHandler fd data i w
  | .doEchoHandler => doEchoHandler fd data i w
  | .doEchoResponse => doEchoResponse fd data i w
  | .doEchoTimeout => doEchoTimeout fd data i w

/-- A call through a handler pointer. -/
def callHandler : Call Handler Nat EchoApp Reply := fun handler fd data i w =>
  if data.any fun block => (w.app.heap block).isNone then .error .useAfterFree
  else runHandler handler fd data i w

/-- `main` up to its loop: the listening socket is open. -/
def echoStart (listenSock : Nat) (isOpen : Nat → Bool) (i : Input Reply) :
    Except Trap EchoLoop := do
  let comm := commInit 102400 (update isOpen listenSock true) i.clock
  let (app, stat) := statInit i.reply.allocated listenSock
    { heap := fun _ => none, next := 0, written := [] }
  let w ← onComm (commUpdateReadHandler i.ctl listenSock (some .acceptConnection) stat) { comm, app }
  .ok { world := w, control := .select }

/-- A run of the server: its start and the steps of its loop. -/
def echoRun (listenSock : Nat) (isOpen : Nat → Bool) (start : Input Reply)
    (inputs : List (Input Reply)) : Except Trap EchoLoop := do
  let m ← echoStart listenSock isOpen start
  runSteps (loopStep callHandler) m inputs

end LinuxCodeDemos.Epoll

/-
  LinuxCodeDemos.SvMsg.FileServer

  The file server of `svmsg_file_server.c`, its children and any number of clients of
  `svmsg_file_client.c`, with the message queues between them.

  - A step is one system call of one process, and the kernel may take the steps in any order.
  - A call that may fail for a reason of its own (`msgget`, `msgrcv`, `msgsnd`, `fork`, `open`,
    `read`) fails where its event says so.
  - `sigaction`, `atexit` and `msgctl` do not fail.
  - A client is known by the identifier of its queue; the kernel gives no identifier twice.
  - `msgsnd` waits for room in the queue, and fails on a queue that was removed.
  - A `msgrcv` that `SIGCHLD` interrupts is made again and changes nothing.
-/

import Mathlib.Data.List.Nodup
import Mathlib.Logic.Function.Basic
import LinuxCodeDemos.Lib.Memory
import LinuxCodeDemos.Lib.Run

namespace LinuxCodeDemos.SvMsg

open Lib

-- ============================================================================
-- Messages
-- ============================================================================

/-- A path without its NUL. -/
abbrev Path := List UInt8

/-- `struct requestMsg`. -/
structure RequestMsg where
  clientId : Nat
  pathname : Path
  deriving DecidableEq, Repr

/-- `RESP_MT_FAILURE`, `RESP_MT_DATA` and `RESP_MT_END`. -/
inductive RespMt where
  | failure
  | data
  | ending
  deriving DecidableEq, Repr

/-- `struct responseMsg`, as long as it is sent. -/
structure ResponseMsg where
  mtype : RespMt
  data : List UInt8
  deriving DecidableEq, Repr

/-- `PATH_MAX`. -/
def pathMax : Nat := 4096

/-- `--help`. -/
def helpArg : Path := [45, 45, 104, 101, 108, 112]

/-- `REQ_MSG_SIZE`. -/
def reqMsgSize : Nat := 4 + pathMax

/-- `RESP_MSG_SIZE`. -/
def respMsgSize : Nat := 8192

/-- `Couldn't open`, with its NUL. -/
def couldntOpen : List UInt8 := [67, 111, 117, 108, 100, 110, 39, 116, 32, 111, 112, 101, 110, 0]

/-- What a call of `msgsnd` comes to. -/
inductive Msgsnd (M : Type) where
  | sent (queue : List M)
  | asleep
  | failed
  deriving DecidableEq, Repr

/-- There is room for one more message, in a queue of `qbytes` bytes. -/
def Fits {M : Type} (size : M → Nat) (qbytes : Nat) (queue : List M) (msg : M) : Prop :=
  (queue.map size).sum + size msg ≤ qbytes ∧ queue.length + 1 ≤ qbytes

instance {M : Type} (size : M → Nat) (qbytes : Nat) (queue : List M) (msg : M) :
    Decidable (Fits size qbytes queue msg) :=
  inferInstanceAs (Decidable (_ ∧ _))

/-- `msgsnd`; no queue is a queue that was removed. -/
def msgsnd {M : Type} (size : M → Nat) (qbytes : Nat) (queue : Option (List M)) (msg : M)
    (fails : Bool) : Msgsnd M :=
  match queue with
  | none => .failed
  | some queue =>
      if fails then .failed
      else if Fits size qbytes queue msg then .sent (queue ++ [msg])
      else .asleep

-- ============================================================================
-- The processes
-- ============================================================================

/-- How a client ends. -/
inductive Result where
  /-- The argument is `--help`, or too long for a path. -/
  | usage
  /-- `msgget` failed for the queue of the server, or for its own. -/
  | noServer
  | noQueue
  /-- `msgsnd` or `msgrcv` failed. -/
  | notSent
  | notReceived
  /-- The server could not open the file. -/
  | refused
  /-- `Received %ld bytes (%d messages)`. -/
  | received (totBytes numMsgs : Nat)
  deriving DecidableEq, Repr

inductive ClientPc where
  | start
  | getQueue
  | sendRequest
  | receiveFirst
  | receiveNext (totBytes numMsgs : Nat)
  /-- `removeQueue` is still to come. -/
  | exiting (result : Result)
  | exited (result : Result)
  deriving DecidableEq, Repr

/-- A client, with the messages it has received. -/
structure Client where
  pathname : Path
  pc : ClientPc
  received : List ResponseMsg
  deriving DecidableEq, Repr

inductive ServerPc where
  | start
  | receive
  | fork (req : RequestMsg)
  | stopping
  | exited
  deriving DecidableEq, Repr

inductive ChildPc where
  | opening
  | couldntOpen
  | reading
  | sending (data : List UInt8)
  | ending
  | exited
  deriving DecidableEq, Repr

/-- A child in `serveRequest`; `offset` is that of its open file. -/
structure Child where
  req : RequestMsg
  pc : ChildPc
  offset : Nat
  deriving DecidableEq, Repr

/-- All processes and queues.  `delivered` are the messages that were put into the queue of a
    client. -/
structure Sys where
  server : ServerPc
  serverQueue : Option (List RequestMsg)
  clients : Nat → Client
  queues : Nat → Option (List ResponseMsg)
  delivered : Nat → List ResponseMsg
  children : List Child

inductive Stuck where
  | asleep
  | ended
  deriving DecidableEq, Repr

/-- Who makes the next call, and whether it fails.  `count` bounds what a `read` returns. -/
inductive Event where
  | server (fails : Bool)
  | client (c : Nat) (fails : Bool)
  | child (k : Nat) (fails : Bool) (count : Nat)
  deriving DecidableEq, Repr

def Event.fails : Event → Bool
  | .server fails => fails
  | .client _ fails => fails
  | .child _ fails _ => fails

/-- What stays the same: the files, the clients and the limit of a queue. -/
structure Env where
  files : Path → Option (List UInt8)
  numClients : Nat
  qbytes : Nat

namespace Sys

/-- The clients with their arguments, before anything runs. -/
def start (argv : Nat → Path) : Sys where
  server := .start
  serverQueue := none
  clients := fun c => { pathname := argv c, pc := .start, received := [] }
  queues := fun _ => none
  delivered := fun _ => []
  children := []

def setPc (s : Sys) (c : Nat) (pc : ClientPc) : Sys :=
  { s with clients := Function.update s.clients c { s.clients c with pc } }

/-- `main` of the server. -/
def serverStep (s : Sys) (fails : Bool) : Except Stuck Sys :=
  match s.server with
  | .start =>
      if fails then .ok { s with server := .exited }
      else .ok { s with server := .receive, serverQueue := some [] }
  | .receive =>
      if fails then .ok { s with server := .stopping }
      else
        match s.serverQueue with
        | none => .ok { s with server := .stopping }
        | some [] => .error .asleep
        | some (req :: rest) => .ok { s with server := .fork req, serverQueue := some rest }
  | .fork req =>
      if fails then .ok { s with server := .stopping }
      else .ok { s with
        server := .receive, children := s.children ++ [{ req, pc := .opening, offset := 0 }] }
  | .stopping => .ok { s with server := .exited, serverQueue := none }
  | .exited => .error .ended

/-- What `main` of a client does with a message: `next` is where it goes on after data. -/
def received (s : Sys) (c : Nat) (msg : ResponseMsg) (rest : List ResponseMsg) (pc : ClientPc) :
    Sys :=
  { s with
    queues := Function.update s.queues c (some rest)
    clients := Function.update s.clients c
      { s.clients c with pc, received := (s.clients c).received ++ [msg] } }

/-- `main` of a client. -/
def clientStep (env : Env) (s : Sys) (c : Nat) (fails : Bool) : Except Stuck Sys :=
  match (s.clients c).pc with
  | .start =>
      if (s.clients c).pathname = helpArg ∨ pathMax - 1 < (s.clients c).pathname.length then
        .ok (s.setPc c (.exited .usage))
      else if fails ∨ s.serverQueue = none then .ok (s.setPc c (.exited .noServer))
      else .ok (s.setPc c .getQueue)
  | .getQueue =>
      if fails then .ok (s.setPc c (.exited .noQueue))
      else .ok { s.setPc c .sendRequest with queues := Function.update s.queues c (some []) }
  | .sendRequest =>
      let req : RequestMsg := { clientId := c, pathname := (s.clients c).pathname }
      match msgsnd (fun _ => reqMsgSize) env.qbytes s.serverQueue req fails with
      | .failed => .ok (s.setPc c (.exiting .notSent))
      | .asleep => .error .asleep
      | .sent queue => .ok { s.setPc c .receiveFirst with serverQueue := some queue }
  | .receiveFirst =>
      if fails then .ok (s.setPc c (.exiting .notReceived))
      else
        match s.queues c with
        | none => .ok (s.setPc c (.exiting .notReceived))
        | some [] => .error .asleep
        | some (msg :: rest) =>
            match msg.mtype with
            | .failure => .ok (s.received c msg rest (.exiting .refused))
            | .data => .ok (s.received c msg rest (.receiveNext msg.data.length 1))
            | .ending => .ok (s.received c msg rest (.exiting (.received msg.data.length 1)))
  | .receiveNext totBytes numMsgs =>
      if fails then .ok (s.setPc c (.exiting .notReceived))
      else
        match s.queues c with
        | none => .ok (s.setPc c (.exiting .notReceived))
        | some [] => .error .asleep
        | some (msg :: rest) =>
            let totBytes := totBytes + msg.data.length
            let numMsgs := addInt numMsgs 1
            match msg.mtype with
            | .data => .ok (s.received c msg rest (.receiveNext totBytes numMsgs))
            | _ => .ok (s.received c msg rest (.exiting (.received totBytes numMsgs)))
  | .exiting result =>
      .ok { s.setPc c (.exited result) with queues := Function.update s.queues c none }
  | .exited _ => .error .ended

/-- The call of `msgsnd` of a child, on the queue of its client. -/
def send (env : Env) (s : Sys) (ch : Child) (msg : ResponseMsg) (fails : Bool) :
    Msgsnd ResponseMsg :=
  msgsnd (fun msg => msg.data.length) env.qbytes (s.queues ch.req.clientId) msg fails

/-- A message is in the queue of the client. -/
def deliver (s : Sys) (c : Nat) (msg : ResponseMsg) (queue : List ResponseMsg) : Sys :=
  { s with
    queues := Function.update s.queues c (some queue)
    delivered := Function.update s.delivered c (s.delivered c ++ [msg]) }

/-- `serveRequest`: the child goes on from `ch`. -/
def childStep (env : Env) (s : Sys) (ch : Child) (fails : Bool) (count : Nat) :
    Except Stuck (Sys × Child) :=
  match ch.pc with
  | .opening =>
      if fails ∨ env.files ch.req.pathname = none then .ok (s, { ch with pc := .couldntOpen })
      else .ok (s, { ch with pc := .reading })
  | .couldntOpen =>
      let msg : ResponseMsg := { mtype := .failure, data := couldntOpen }
      match s.send env ch msg fails with
      | .failed => .ok (s, { ch with pc := .exited })
      | .asleep => .error .asleep
      | .sent queue => .ok (s.deliver ch.req.clientId msg queue, { ch with pc := .exited })
  | .reading =>
      if fails then .ok (s, { ch with pc := .ending })
      else
        match (((env.files ch.req.pathname).getD []).drop ch.offset).take
            (min (count + 1) respMsgSize) with
        | [] => .ok (s, { ch with pc := .ending })
        | b :: bs =>
            .ok (s, { ch with pc := .sending (b :: bs), offset := ch.offset + (b :: bs).length })
  | .sending data =>
      let msg : ResponseMsg := { mtype := .data, data }
      match s.send env ch msg fails with
      | .failed => .ok (s, { ch with pc := .ending })
      | .asleep => .error .asleep
      | .sent queue => .ok (s.deliver ch.req.clientId msg queue, { ch with pc := .reading })
  | .ending =>
      let msg : ResponseMsg := { mtype := .ending, data := [] }
      match s.send env ch msg fails with
      | .failed => .ok (s, { ch with pc := .exited })
      | .asleep => .error .asleep
      | .sent queue => .ok (s.deliver ch.req.clientId msg queue, { ch with pc := .exited })
  | .exited => .error .ended

def step (env : Env) (s : Sys) : Event → Except Stuck Sys
  | .server fails => s.serverStep fails
  | .client c fails => if c < env.numClients then s.clientStep env c fails else .error .ended
  | .child k fails count =>
      match s.children[k]? with
      | none => .error .ended
      | some ch =>
          match s.childStep env ch fails count with
          | .error e => .error e
          | .ok (s, ch) => .ok { s with children := s.children.set k ch }

end Sys

theorem msgsnd_sent {M : Type} {size : M → Nat} {qbytes : Nat} {queue : Option (List M)} {msg : M}
    {fails : Bool} {queue' : List M} (h : msgsnd size qbytes queue msg fails = .sent queue') :
    ∃ old, queue = some old ∧ queue' = old ++ [msg] := by
  cases queue with
  | none => cases h
  | some old =>
      rw [msgsnd] at h
      split at h
      · cases h
      · split at h
        · cases h
          exact ⟨old, rfl, rfl⟩
        · cases h

theorem msgsnd_failed {M : Type} {size : M → Nat} {qbytes : Nat} {queue : Option (List M)} {msg : M}
    {fails : Bool} (h : msgsnd size qbytes queue msg fails = .failed) :
    queue = none ∨ fails = true := by
  cases queue with
  | none => exact .inl rfl
  | some old =>
      rw [msgsnd] at h
      split at h
      · next hfails => exact .inr hfails
      · split at h <;> cases h

theorem msgsnd_asleep {M : Type} {size : M → Nat} {qbytes : Nat} {queue : Option (List M)} {msg : M}
    {fails : Bool} (h : msgsnd size qbytes queue msg fails = .asleep) :
    ∃ old, queue = some old ∧ ¬ Fits size qbytes old msg := by
  cases queue with
  | none => cases h
  | some old =>
      rw [msgsnd] at h
      split at h
      · cases h
      · split at h
        · cases h
        · next hfull => exact ⟨old, rfl, hfull⟩

end LinuxCodeDemos.SvMsg

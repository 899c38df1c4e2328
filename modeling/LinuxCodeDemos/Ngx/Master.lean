/-
  LinuxCodeDemos.Ngx.Master

  The process table of `process_IPC/ngx_process.c` and `ngx_process_cycle.c`.

  - `ngx_processes` is a function of the slot.  `proc`, `data` and `name` are only
    handed on and are left out.
  - The kernel's side is `kids`: a process id is in use from `fork` to `waitpid`.
    `fork` fails or returns an id that is not in use.
  - What is written to the channels and what is forked goes to the log, oldest
    first.  A forked child starts with a copy of the table.
  - What system calls return is an input (`SpawnOutcome`, `SignalOutcome`).
-/

import Mathlib.Logic.Function.Basic
import Mathlib.Data.List.Basic
import LinuxCodeDemos.Lib.Memory

namespace LinuxCodeDemos.Ngx

open Function (update)

def maxProcesses : Nat := 1024

/-- `NGX_INVALID_PID`, also the mark of a free slot. -/
def invalidPid : Int := -1

def processNorespawn : Int := -1
def processJustSpawn : Int := -2
def processRespawn : Int := -3
def processJustRespawn : Int := -4
def processDetached : Int := -5

/-- `ngx_process_t`. -/
structure Process where
  pid : Int
  status : Nat
  channel : Int × Int
  respawn : Bool
  justSpawn : Bool
  detached : Bool
  exiting : Bool
  exited : Bool
  deriving DecidableEq, Repr

/-- A slot of the table at the start. -/
def Process.zero : Process :=
  { pid := 0, status := 0, channel := (0, 0), respawn := false, justSpawn := false
    detached := false, exiting := false, exited := false }

/-- `ch.command`; `none` is 0. -/
inductive Command where
  | none
  | openChannel
  | closeChannel
  | quit
  | terminate
  | reopen
  deriving DecidableEq, Repr

/-- `ngx_channel_t`. -/
structure Channel where
  command : Command
  pid : Int
  slot : Nat
  fd : Int
  deriving DecidableEq, Repr

/-- A process id as the kernel sees it. -/
inductive Kid where
  | absent
  | running
  | zombie (status : Nat)
  deriving DecidableEq, Repr

/-- What the master does to its children. -/
inductive Note where
  | write (slot : Nat) (fd : Int) (ch : Channel)
  | fork (slot : Nat) (view : Nat → Process)

/-- The globals of the master. -/
structure Master where
  processes : Nat → Process
  lastProcess : Nat
  processSlot : Nat
  reap : Bool
  sigio : Bool
  sigalrm : Bool
  terminate : Bool
  quit : Bool
  reconfigure : Bool
  reopen : Bool
  changeBinary : Bool
  noaccept : Bool
  noaccepting : Bool
  daemonized : Bool
  restart : Bool
  newBinary : Int
  kids : Nat → Kid
  log : List Note

/-- A master that has just started. -/
def Master.start : Master :=
  { processes := fun _ => Process.zero, lastProcess := 0, processSlot := 0, reap := false
    sigio := false, sigalrm := false, terminate := false, quit := false, reconfigure := false
    reopen := false, changeBinary := false, noaccept := false, noaccepting := false
    daemonized := false, restart := false, newBinary := 0, kids := fun _ => .absent, log := [] }

/-- What the system calls of one `ngx_spawn_process` return. -/
structure SpawnOutcome where
  socketpair : Option (Nat × Nat)
  nonblock : Bool × Bool
  fioasync : Bool
  setown : Bool
  cloexec : Bool × Bool
  fork : Option Nat
  deriving DecidableEq, Repr

/-- A spawn in which no call fails. -/
def SpawnOutcome.success (channel : Nat × Nat) (pid : Nat) : SpawnOutcome :=
  { socketpair := some channel, nonblock := (true, true), fioasync := true, setown := true
    cloexec := (true, true), fork := some pid }

namespace Master

/-- `ngx_processes[s]. .. = ..`. -/
def setProcess (s : Nat) (f : Process → Process) (m : Master) : Master :=
  { m with processes := update m.processes s (f (m.processes s)) }

-- ============================================================================
-- `ngx_spawn_process`
-- ============================================================================

/-- The slot of a new process. -/
def chooseSlot (respawn : Int) (m : Master) : Nat :=
  if 0 ≤ respawn then respawn.toNat
  else ((List.range m.lastProcess).find? fun s => (m.processes s).pid = invalidPid).getD
    m.lastProcess

/-- `socketpair` and the calls that prepare its ends.  After a failure the slot
    keeps the descriptors that were closed. -/
def openChannel (respawn : Int) (s : Nat) (o : SpawnOutcome) (m : Master) : Bool × Master :=
  if respawn ≠ processDetached then
    match o.socketpair with
    | none => (false, m)
    | some (fd₀, fd₁) =>
        let m := m.setProcess s fun p => { p with channel := (fd₀, fd₁) }
        (o.nonblock.1 && o.nonblock.2 && o.fioasync && o.setown && o.cloexec.1 && o.cloexec.2, m)
  else (true, m.setProcess s fun p => { p with channel := (-1, -1) })

/-- `fork`, seen from the parent. -/
def fork (s : Nat) (choice : Option Nat) (m : Master) : Option (Nat × Master) :=
  match choice with
  | none => none
  | some pid =>
      if 0 < pid ∧ m.kids pid = .absent then
        some (pid, { m with
          kids := update m.kids pid .running, log := m.log ++ [.fork s m.processes] })
      else none

/-- The flags of a new process. -/
def kindOf (respawn : Int) (p : Process) : Process :=
  if respawn = processNorespawn then
    { p with respawn := false, justSpawn := false, detached := false }
  else if respawn = processJustSpawn then
    { p with respawn := false, justSpawn := true, detached := false }
  else if respawn = processRespawn then
    { p with respawn := true, justSpawn := false, detached := false }
  else if respawn = processJustRespawn then
    { p with respawn := true, justSpawn := true, detached := false }
  else if respawn = processDetached then
    { p with respawn := false, justSpawn := false, detached := true }
  else p

/-- `ngx_spawn_process` after `fork`. -/
def enterProcess (respawn : Int) (s pid : Nat) (m : Master) : Master :=
  let m := m.setProcess s fun p => { p with pid, exited := false }
  if 0 ≤ respawn then m
  else
    let m := m.setProcess s fun p => kindOf respawn { p with exiting := false }
    if s = m.lastProcess then { m with lastProcess := m.lastProcess + 1 } else m

/-- `ngx_spawn_process`. -/
def spawnProcess (respawn : Int) (o : SpawnOutcome) (m : Master) : Int × Master :=
  let s := m.chooseSlot respawn
  if respawn < 0 ∧ s = maxProcesses then (invalidPid, m)
  else
    match m.openChannel respawn s o with
    | (false, m) => (invalidPid, m)
    | (true, m) =>
        let m := { m with processSlot := s }
        match m.fork s o.fork with
        | none => (invalidPid, m)
        | some (pid, m) => (pid, m.enterProcess respawn s pid)

-- ============================================================================
-- `ngx_process_get_status`
-- ============================================================================

/-- A child exits. -/
def exitChild (pid status : Nat) (m : Master) : Master :=
  if m.kids pid = .running then { m with kids := update m.kids pid (.zombie status) } else m

def wexitstatus (status : Nat) : Nat := status / 256 % 256

/-- What `ngx_process_get_status` does with one child that `waitpid` returns. -/
def markExited (pid status : Nat) (m : Master) : Master :=
  let i := ((List.range m.lastProcess).find? fun i => (m.processes i).pid = pid).getD m.lastProcess
  let m := if i < m.lastProcess then m.setProcess i fun p => { p with status, exited := true } else m
  if wexitstatus status = 2 ∧ (m.processes i).respawn then
    m.setProcess i fun p => { p with respawn := false }
  else m

/-- One `waitpid`; nothing happens unless the child has exited. -/
def waitChild (pid : Nat) (m : Master) : Master :=
  match m.kids pid with
  | .zombie status => markExited pid status { m with kids := update m.kids pid .absent }
  | _ => m

/-- `ngx_process_get_status`: the children in the order in which `waitpid` returns
    them. -/
def processGetStatus (waits : List Nat) (m : Master) : Master :=
  waits.foldl (fun m pid => m.waitChild pid) m

-- ============================================================================
-- `ngx_reap_children`
-- ============================================================================

/-- Writes of `ch` to the slots below `ngx_last_process` that `wants` selects. -/
def writesOf (wants : Nat → Process → Bool) (ch : Channel) (m : Master) : List Note :=
  ((List.range m.lastProcess).filter fun n => wants n (m.processes n)).map
    fun n => .write n (m.processes n).channel.1 ch

def writeChannels (wants : Nat → Process → Bool) (ch : Channel) (m : Master) : Master :=
  { m with log := m.log ++ m.writesOf wants ch }

/-- `ngx_pass_open_channel`. -/
def passOpenChannel (ch : Channel) (m : Master) : Master :=
  m.writeChannels (fun i p => i ≠ m.processSlot && p.pid ≠ -1 && p.channel.1 ≠ -1) ch

end Master

/-- The locals of `ngx_reap_children` beside the globals. -/
structure Reaping where
  master : Master
  ch : Channel
  live : Bool

namespace Reaping

/-- `ngx_close_channel` and the message to the others. -/
def closeChannel (i : Nat) (r : Reaping) : Reaping :=
  let ch := { r.ch with pid := (r.master.processes i).pid, slot := i }
  let m := r.master.setProcess i fun p => { p with channel := (-1, -1) }
  { r with
    master := m.writeChannels (fun _ p => !p.exited && p.pid ≠ -1 && p.channel.1 ≠ -1) ch
    ch }

/-- The child is started again. -/
def respawnChild (i : Nat) (o : SpawnOutcome) (r : Reaping) : Reaping :=
  match r.master.spawnProcess i o with
  | (pid, m) =>
      if pid = invalidPid then { r with master := m }
      else
        let ch : Channel :=
          { command := .openChannel
            pid := (m.processes m.processSlot).pid
            slot := m.processSlot
            fd := (m.processes m.processSlot).channel.1 }
        { master := m.passOpenChannel ch, ch, live := true }

/-- The slot is given up. -/
def freeSlot (i : Nat) (r : Reaping) : Reaping :=
  if i + 1 = r.master.lastProcess then { r with master := { r.master with lastProcess := i } }
  else { r with master := r.master.setProcess i fun p => { p with pid := -1 } }

/-- One turn of the loop of `ngx_reap_children`. -/
def reapSlot (o : SpawnOutcome) (i : Nat) (r : Reaping) : Reaping :=
  let p := r.master.processes i
  if p.pid = -1 then r
  else if p.exited then
    let r := if !p.detached then r.closeChannel i else r
    if p.respawn && !p.exiting && !r.master.terminate && !r.master.quit then r.respawnChild i o
    else r.freeSlot i
  else if p.exiting || !p.detached then { r with live := true }
  else r

/-- `ngx_reap_children` at its start. -/
def start (m : Master) : Reaping :=
  { master := m, ch := { command := .closeChannel, pid := 0, slot := 0, fd := -1 }, live := false }

end Reaping

/-- `ngx_reap_children`.  `ngx_last_process` does not grow in the loop. -/
def Master.reapChildren (outcomes : Nat → SpawnOutcome) (m : Master) : Reaping :=
  (List.range m.lastProcess).foldl
    (fun r i => if i < r.master.lastProcess then r.reapSlot (outcomes i) i else r) (Reaping.start m)

-- ============================================================================
-- Workers
-- ============================================================================

/-- What a worker knows of the others, and its flags. -/
structure Worker where
  pid : Nat → Int
  channel : Nat → Int
  quit : Bool
  terminate : Bool
  reopen : Bool

/-- One turn of `try_ngx_channel_handler`; `fd` is the descriptor that came with the
    message. -/
def Worker.channelHandler (w : Worker) (ch : Channel) (fd : Nat) : Worker :=
  match ch.command with
  | .quit => { w with quit := true }
  | .terminate => { w with terminate := true }
  | .reopen => { w with reopen := true }
  | .openChannel =>
      { w with pid := update w.pid ch.slot ch.pid, channel := update w.channel ch.slot fd }
  | .closeChannel => { w with channel := update w.channel ch.slot (-1) }
  | .none => w

end LinuxCodeDemos.Ngx

/-
  LinuxCodeDemos.Ngx.Cycle

  The loop of `ngx_master_process_cycle`.

  - Signals are blocked outside `sigsuspend`, so handlers run there only.  During
    one `sigsuspend` any number of signals may be handled, and children may exit
    between them.  A child that exits while the loop body runs is not seen before
    the next `waitpid`.
  - `kill` of a process that exists does not fail with ESRCH.
-/

import LinuxCodeDemos.Ngx.Master

namespace LinuxCodeDemos.Ngx

-- ============================================================================
-- Signals
-- ============================================================================

/-- The signals that the master handles. -/
inductive Signal where
  | hup
  | usr1
  | winch
  | term
  | quit
  | usr2
  | alrm
  | int
  | io
  | chld
  deriving DecidableEq, Repr

/-- What happens during `sigsuspend`. -/
inductive Happening where
  | exit (pid status : Nat)
  /-- A signal, what `waitpid` returns in its handler and whether `getppid () > 1`. -/
  | signal (signo : Signal) (waits : List Nat) (parent : Bool)
  deriving DecidableEq, Repr

namespace Master

/-- `ngx_signal_handler` in the master. -/
def signalHandler (signo : Signal) (waits : List Nat) (parent : Bool) (m : Master) : Master :=
  match signo with
  | .quit => { m with quit := true }
  | .term => { m with terminate := true }
  | .int => { m with terminate := true }
  | .winch => if m.daemonized then { m with noaccept := true } else m
  | .hup => { m with reconfigure := true }
  | .usr1 => { m with reopen := true }
  | .usr2 => if parent ∨ 0 < m.newBinary then m else { m with changeBinary := true }
  | .alrm => { m with sigalrm := true }
  | .io => { m with sigio := true }
  | .chld => processGetStatus waits { m with reap := true }

def happen (m : Master) : Happening → Master
  | .exit pid status => m.exitChild pid status
  | .signal signo waits parent => m.signalHandler signo waits parent

end Master

-- ============================================================================
-- `ngx_signal_worker_processes`
-- ============================================================================

/-- The signals that the master sends. -/
inductive Signo where
  | quit
  | term
  | usr1
  | kill
  deriving DecidableEq, Repr

def Signo.command : Signo → Command
  | .quit => .quit
  | .term => .terminate
  | .usr1 => .reopen
  | .kill => .none

inductive KillResult where
  | ok
  | esrch
  | error
  deriving DecidableEq, Repr

/-- Whether the writes to the channels succeed, and what `kill` returns. -/
structure SignalOutcome where
  written : Nat → Bool
  killed : Nat → KillResult

namespace Master

/-- `kill`. -/
def kill (pid : Int) (result : KillResult) (m : Master) : KillResult :=
  if result = .esrch ∧ m.kids pid.toNat ≠ .absent then .ok else result

/-- One turn of the loop of `ngx_signal_worker_processes`. -/
def signalSlot (signo : Signo) (o : SignalOutcome) (m : Master) (i : Nat) : Master :=
  let p := m.processes i
  let setExiting := fun m : Master =>
    if signo ≠ .usr1 then m.setProcess i fun p => { p with exiting := true } else m
  if p.detached ∨ p.pid = -1 then m
  else if p.justSpawn then m.setProcess i fun p => { p with justSpawn := false }
  else if p.exiting ∧ signo = .quit then m
  else if signo.command ≠ .none ∧ o.written i then
    let ch : Channel := { command := signo.command, pid := 0, slot := 0, fd := -1 }
    setExiting { m with log := m.log ++ [.write i p.channel.1 ch] }
  else
    match m.kill p.pid (o.killed i) with
    | .esrch =>
        { m.setProcess i fun p => { p with exited := true, exiting := false } with reap := true }
    | .error => m
    | .ok => setExiting m

/-- `ngx_signal_worker_processes`. -/
def signalWorkerProcesses (signo : Signo) (o : SignalOutcome) (m : Master) : Master :=
  (List.range m.lastProcess).foldl (signalSlot signo o) m

/-- One turn of the loop of `ngx_start_worker_processes`. -/
def startWorker (type : Int) (outcomes : Nat → SpawnOutcome) (m : Master) (i : Nat) : Master :=
  let m := (m.spawnProcess type (outcomes i)).2
  m.passOpenChannel
    { command := .openChannel
      pid := (m.processes m.processSlot).pid
      slot := m.processSlot
      fd := (m.processes m.processSlot).channel.1 }

/-- `ngx_start_worker_processes`. -/
def startWorkerProcesses (n : Nat) (type : Int) (outcomes : Nat → SpawnOutcome) (m : Master) :
    Master := (List.range n).foldl (startWorker type outcomes) m

end Master

-- ============================================================================
-- `ngx_master_process_cycle`
-- ============================================================================

def workerProcesses : Nat := 1

/-- The locals of `ngx_master_process_cycle` beside the globals; `stopped` after
    `ngx_master_process_exit`. -/
structure Cycle where
  master : Master
  delay : Nat
  sigio : Nat
  live : Bool
  stopped : Bool

/-- What the system calls of one turn return, and what happens in `sigsuspend`. -/
structure TurnInput where
  happenings : List Happening
  reaped : Nat → SpawnOutcome
  started : Nat → SpawnOutcome
  restarted : Nat → SpawnOutcome
  /-- The calls of `ngx_signal_worker_processes`, by their place in the loop. -/
  stop : SignalOutcome
  reload : SignalOutcome
  reopen : SignalOutcome
  noaccept : SignalOutcome

namespace Cycle

/-- From the top of the loop to `sigsuspend`. -/
def setTimer (x : Cycle) : Cycle :=
  if x.delay ≠ 0 ∧ x.master.sigalrm then
    { x with sigio := 0, delay := x.delay * 2 % 2 ^ 64, master := { x.master with sigalrm := false } }
  else x

def sigsuspend (happenings : List Happening) (x : Cycle) : Cycle :=
  { x with master := happenings.foldl Master.happen x.master }

def reapChildren (outcomes : Nat → SpawnOutcome) (x : Cycle) : Cycle :=
  if x.master.reap then
    let r := Master.reapChildren outcomes { x.master with reap := false }
    { x with master := r.master, live := r.live }
  else x

/-- The branch of `ngx_terminate`. -/
def terminating (o : SignalOutcome) (x : Cycle) : Cycle :=
  let x := if x.delay = 0 then { x with delay := 50 } else x
  if x.sigio ≠ 0 then { x with sigio := x.sigio - 1 }
  else
    { x with
      sigio := workerProcesses
      master := x.master.signalWorkerProcesses (if 1000 < x.delay then .kill else .term) o }

/-- The branch of `ngx_reconfigure` without a new binary. -/
def reconfiguring (i : TurnInput) (x : Cycle) : Cycle :=
  if x.master.reconfigure then
    let m := { x.master with reconfigure := false }
    let m := m.startWorkerProcesses workerProcesses processJustRespawn i.started
    { x with master := m.signalWorkerProcesses .quit i.reload, live := true }
  else x

def restarting (i : TurnInput) (x : Cycle) : Cycle :=
  if x.master.restart then
    let m := { x.master with restart := false }
    { x with
      master := m.startWorkerProcesses workerProcesses processRespawn i.restarted, live := true }
  else x

def reopening (i : TurnInput) (x : Cycle) : Cycle :=
  if x.master.reopen then
    let m := { x.master with reopen := false }
    { x with master := m.signalWorkerProcesses .usr1 i.reopen }
  else x

def changingBinary (x : Cycle) : Cycle :=
  if x.master.changeBinary then { x with master := { x.master with changeBinary := false } } else x

def notAccepting (i : TurnInput) (x : Cycle) : Cycle :=
  if x.master.noaccept then
    let m := { x.master with noaccept := false, noaccepting := true }
    { x with master := m.signalWorkerProcesses .quit i.noaccept }
  else x

/-- The rest of the loop after the shutdown branches. -/
def serving (i : TurnInput) (x : Cycle) : Cycle :=
  if x.master.reconfigure ∧ x.master.newBinary ≠ 0 then
    let m := { x.master with reconfigure := false }
    let m := m.startWorkerProcesses workerProcesses processRespawn i.started
    { x with master := { m with noaccepting := false } }
  else
    ((((x.reconfiguring i).restarting i).reopening i).changingBinary).notAccepting i

/-- One turn of the loop. -/
def turn (x : Cycle) (i : TurnInput) : Cycle :=
  if x.stopped then x
  else
    let x := (x.setTimer.sigsuspend i.happenings).reapChildren i.reaped
    if !x.live && (x.master.terminate || x.master.quit) then { x with stopped := true }
    else if x.master.terminate then x.terminating i.stop
    else if x.master.quit then
      { x with master := x.master.signalWorkerProcesses .quit i.stop }
    else x.serving i

/-- `ngx_master_process_cycle` before its loop. -/
def start (outcomes : Nat → SpawnOutcome) : Cycle :=
  let m := Master.start.startWorkerProcesses workerProcesses processRespawn outcomes
  { master := { m with newBinary := 0 }, delay := 0, sigio := 0, live := true, stopped := false }

def step (x : Cycle) (i : TurnInput) : Except Empty Cycle := .ok (x.turn i)

end Cycle

end LinuxCodeDemos.Ngx

/-
  LinuxCodeDemos.Epoll.Watch

  The echo server with a record of what happens on each connection.

  - `watchHandler` calls a handler and notes what it did: the greeting bytes, the chunk that
    was read, the bytes of a reply.  `accept` begins a new record for its descriptor.
    Without the record the loop is the loop of the server (`watchRun_forget`).
  - `Effect` says once what a handler can do to the tables, the heap and `written`.
-/

import LinuxCodeDemos.Epoll.Mirror
import LinuxCodeDemos.Epoll.Ownership

namespace LinuxCodeDemos.Epoll

open Lib
open Function (update)

-- ============================================================================
-- Definitions
-- ============================================================================

/-- What happens on a connection. -/
inductive Piece where
  /-- The bytes of `do_welcome_handler` that `write` took. -/
  | greeting (bytes : List UInt8)
  /-- A call of `do_echo_handler`, and the chunk if it read one that is not "quit". -/
  | read (chunk : Option (List UInt8))
  /-- The bytes of `do_echo_response` that `write` took, and its result. -/
  | echo (bytes : List UInt8) (sent : Int)
  deriving DecidableEq, Repr

/-- The server and, by descriptor, what has happened on the connection, the latest first. -/
structure Watched where
  app : EchoApp
  history : Nat → List Piece

abbrev WatchWorld := World Handler Nat Watched

abbrev WatchLoop := Loop Handler Nat Watched

/-- The chunk that `do_echo_handler` reads and answers. -/
def chunkRead (reply : Reply) : Option (List UInt8) :=
  (reply.incoming.map fun incoming => incoming.take (bufLen - 2 - 1)).filter fun bytes =>
    bytes ≠ [] ∧ isQuit bytes = false

/-- The record after a call; `bytes` is what the call has written. -/
def note (handler : Handler) (fd : Nat) (i : Input Reply) (c : Comm Handler Nat)
    (bytes : List UInt8) (history : Nat → List Piece) : Nat → List Piece :=
  match handler with
  | .acceptConnection =>
      match acceptFd i.reply.accepted c with
      | none => history
      | some newFd => update history newFd []
  | .doWelcomeHandler => update history fd (.greeting bytes :: history fd)
  | .doEchoHandler => update history fd (.read (chunkRead i.reply) :: history fd)
  | .doEchoResponse => update history fd (.echo bytes i.reply.sent :: history fd)
  | .doEchoTimeout => history

/-- What has been written since. -/
def writtenSince (app app' : EchoApp) : List UInt8 :=
  (app'.written.take (app'.written.length - app.written.length)).flatMap Prod.snd

/-- A call through a handler pointer, with its record. -/
def watchHandler : Call Handler Nat Watched Reply := fun handler fd data i w => do
  let w' ← callHandler handler fd data i (w.mapApp Watched.app)
  .ok
    { comm := w'.comm
      app :=
        { app := w'.app
          history := note handler fd i w.comm (writtenSince w.app.app w'.app) w.app.history } }

/-- The server at its start, without any connection. -/
def watchStart (listenSock : Nat) (isOpen : Nat → Bool) (i : Input Reply) :
    Except Trap WatchLoop := do
  let m ← echoStart listenSock isOpen i
  .ok (m.mapApp fun app => { app, history := fun _ => [] })

def watchRun (listenSock : Nat) (isOpen : Nat → Bool) (start : Input Reply)
    (inputs : List (Input Reply)) : Except Trap WatchLoop := do
  let m ← watchStart listenSock isOpen start
  runSteps (loopStep watchHandler) m inputs

/-- The next event of the batch is one that the descriptor is registered for. -/
def Allowed (m : WatchLoop) : Prop :=
  match m.control with
  | .read (event :: _) =>
      event.events ≠ 0 ∧ event.events &&& ~~~m.world.comm.epollState event.fd = 0
  | _ => True

instance (m : WatchLoop) : Decidable (Allowed m) := by
  unfold Allowed
  split <;> infer_instance

theorem watchHandler_forget (handler : Handler) (fd : Nat) (data : Option Nat) (i : Input Reply)
    (w : WatchWorld) :
    (watchHandler handler fd data i w).map (World.mapApp Watched.app)
      = callHandler handler fd data i (w.mapApp Watched.app) := by
  rw [watchHandler]
  cases callHandler handler fd data i (w.mapApp Watched.app) with
  | error e => rfl
  | ok w' => rfl

/-- The record is only a record. -/
theorem watchRun_forget (listenSock : Nat) (isOpen : Nat → Bool) (start : Input Reply)
    (inputs : List (Input Reply)) :
    (watchRun listenSock isOpen start inputs).map (Loop.mapApp Watched.app)
      = echoRun listenSock isOpen start inputs := by
  rw [watchRun, watchStart, echoRun]
  cases echoStart listenSock isOpen start with
  | error e => rfl
  | ok m => exact runSteps_view (fun s i => loopStep_mapApp watchHandler_forget s i) _ inputs

-- ============================================================================
-- Framework
-- ============================================================================

/-- The events of a descriptor that waits for input. -/
def readEvents : UInt32 := wantedEvents true false

/-- The events of a descriptor that waits for output. -/
def writeEvents : UInt32 := wantedEvents false true

/-- One descriptor of the table gets a new entry and new events. -/
structure Sets (fd : Nat) (F : Fde Handler Nat) (events : UInt32) (c c' : Comm Handler Nat) :
    Prop where
  lt : fd < c.biggestFd
  biggestFd : c'.biggestFd = c.biggestFd
  fdTable : c'.fdTable = update c.fdTable fd F
  epollState : c'.epollState = update c.epollState fd events

/-- The entry of a connection that waits for input, with its timeout. -/
def Fde.toRead (data : Option Nat) (deadline : Int) (F : Fde Handler Nat) : Fde Handler Nat :=
  { F with
    readHandler := some .doEchoHandler, readData := data
    timeoutHandler := some .doEchoTimeout, timeoutData := data, timeout := deadline }

/-- The entry of a connection that waits for output, with its timeout. -/
def Fde.toWrite (handler : Handler) (data : Option Nat) (deadline : Int) (F : Fde Handler Nat) :
    Fde Handler Nat :=
  { F with
    writeHandler := some handler, writeData := data
    timeoutHandler := some .doEchoTimeout, timeoutData := data, timeout := deadline }

section Framework

variable {fd : Nat} {c c₁ c₂ : Comm Handler Nat} {F F' : Fde Handler Nat} {events events' : UInt32}

theorem Sets.trans (h : Sets fd F events c c₁) (h' : Sets fd F' events' c₁ c₂) :
    Sets fd F' events' c c₂ := by
  refine ⟨h.lt, h'.biggestFd.trans h.biggestFd, ?_, ?_⟩
  · rw [h'.fdTable, h.fdTable, Function.update_idem]
  · rw [h'.epollState, h.epollState, Function.update_idem]

theorem Sets.fdTable_self (h : Sets fd F events c c₁) : c₁.fdTable fd = F := by
  rw [h.fdTable, Function.update_self]

theorem Sets.epollState_self (h : Sets fd F events c c₁) : c₁.epollState fd = events := by
  rw [h.epollState, Function.update_self]

theorem sets_epollSetEvents (hlt : fd < c.biggestFd) (ok : Bool) (needRead needWrite : Bool)
    (f : Fde Handler Nat → Fde Handler Nat) :
    Sets fd (f (c.fdTable fd)) (wantedEvents needRead needWrite) c
      (epollSetEvents ok fd needRead needWrite (setEntry fd f c)) := by
  refine ⟨hlt, biggestFd_epollSetEvents .., fdTable_epollSetEvents .., ?_⟩
  rw [epollSetEvents]
  split
  · rfl
  · next heq =>
    rw [not_not.mp heq]
    exact (Function.update_eq_self ..).symm

theorem commUpdateReadHandler_sets (ok : Bool) (fd : Nat) (handler : Option Handler)
    (data : Option Nat) (c : Comm Handler Nat) :
    Ends (Sets fd { c.fdTable fd with readHandler := handler, readData := data } readEvents c)
      (fun _ => c.biggestFd ≤ fd) (commUpdateReadHandler ok fd handler data c) := by
  rw [commUpdateReadHandler, checkFd]
  split
  · next hlt =>
    exact sets_epollSetEvents hlt ok true false
      fun F => { F with readHandler := handler, readData := data }
  · next hge => exact Nat.le_of_not_lt hge

theorem commUpdateWriteHandler_sets (ok : Bool) (fd : Nat) (handler : Option Handler)
    (data : Option Nat) (c : Comm Handler Nat) :
    Ends (Sets fd { c.fdTable fd with writeHandler := handler, writeData := data } writeEvents c)
      (fun _ => c.biggestFd ≤ fd) (commUpdateWriteHandler ok fd handler data c) := by
  rw [commUpdateWriteHandler, checkFd]
  split
  · next hlt =>
    exact sets_epollSetEvents hlt ok false true
      fun F => { F with writeHandler := handler, writeData := data }
  · next hge => exact Nat.le_of_not_lt hge

theorem commSetTimeout_sets (fd : Nat) {timeout : Int} (htimeout : 0 ≤ timeout) (handler : Handler)
    (data : Option Nat) (c : Comm Handler Nat) :
    Ends (Sets fd ((c.fdTable fd).arm (some handler) data (c.sysCurtime + timeout))
      (c.epollState fd) c) (fun _ => c.biggestFd ≤ fd)
      (commSetTimeout fd timeout (some handler) data c) := by
  rw [commSetTimeout]
  split
  · next hge => exact hge
  · next hlt =>
    rw [if_neg (Int.not_lt.mpr htimeout), if_neg (fun h => nomatch h.1)]
    exact ⟨Nat.lt_of_not_le hlt, rfl, rfl, (Function.update_eq_self ..).symm⟩

theorem commClose_sets (ok : Bool) (fd : Nat) (c : Comm Handler Nat) :
    Ends (Sets fd Fde.zero 0 c) (fun _ => fd = 0 ∨ c.biggestFd ≤ fd) (commClose ok fd c) := by
  rw [commClose]
  by_cases hzero : fd = 0
  · rw [if_pos hzero]
    exact .inl hzero
  · rw [if_neg hzero, checkFd]
    split
    · next hlt =>
      obtain ⟨-, hbig, htable, hstate⟩ := sets_epollSetEvents hlt ok false false fun _ => Fde.zero
      exact ⟨hlt, hbig, htable, hstate⟩
    · next hge => exact .inr (Nat.le_of_not_lt hge)

end Framework

-- ============================================================================
-- Handlers
-- ============================================================================

/-- The heap after `free`. -/
def freed (data : Option Nat) (heap : Nat → Option ConnectStat) : Nat → Option ConnectStat :=
  match data with
  | none => heap
  | some block => update heap block none

/-- What `do_echo_response` offers to `write`. -/
def replyText (heap : Nat → Option ConnectStat) (block : Nat) : List UInt8 :=
  ((heap block).map fun stat => stat.sendBuf.takeWhile (· ≠ 0)).getD []

/-- The connection is closed and its block freed. -/
structure HungUp (fd : Nat) (data : Option Nat) (w w' : EchoWorld) : Prop where
  sets : Sets fd Fde.zero 0 w.comm w'.comm
  heap : w'.app.heap = freed data w.app.heap
  written : w'.app.written = w.app.written

/-- What a handler can do. -/
inductive Effect (fd : Nat) (data : Option Nat) (i : Input Reply) (w : EchoWorld) :
    Handler → EchoWorld → Prop where
  | nobody (haccept : acceptFd i.reply.accepted w.comm = none) :
      Effect fd data i w .acceptConnection w
  /-- Descriptor 0 is not served. -/
  | zero (haccept : acceptFd i.reply.accepted w.comm = some 0) :
      Effect fd data i w .acceptConnection
        { w with comm := { w.comm with isOpen := update w.comm.isOpen 0 true } }
  | joined (newFd : Nat) (haccept : acceptFd i.reply.accepted w.comm = some newFd)
      (deadline : Int) (comm : Comm Handler Nat)
      (hsets : Sets newFd ((w.comm.fdTable newFd).toWrite .doWelcomeHandler
        (statInit i.reply.allocated newFd w.app).2 deadline) writeEvents w.comm comm) :
      Effect fd data i w .acceptConnection
        { comm, app := (statInit i.reply.allocated newFd w.app).1 }
  | greeted (hsent : i.reply.sent = welcome.length) (deadline : Int) (comm : Comm Handler Nat)
      (hsets : Sets fd ((w.comm.fdTable fd).toRead data deadline) readEvents w.comm comm) :
      Effect fd data i w .doWelcomeHandler
        { comm, app := { w.app with
          written := (fd, welcome.take i.reply.sent.toNat) :: w.app.written } }
  | interrupted (hsent : i.reply.sent ≠ welcome.length) :
      Effect fd data i w .doWelcomeHandler { w with app := { w.app with
        written := (fd, welcome.take i.reply.sent.toNat) :: w.app.written } }
  | unread (block : Nat) (hdata : data = some block) (hchunk : chunkRead i.reply = none) :
      Effect fd data i w .doEchoHandler (setSendBuf block (fun buf => splice buf 0 [45, 62]) w)
  | closed (block : Nat) (hdata : data = some block) (hchunk : chunkRead i.reply = none)
      (f : List UInt8 → List UInt8) (w' : EchoWorld) (hup : HungUp fd data (setSendBuf block f w) w') :
      Effect fd data i w .doEchoHandler w'
  | received (block : Nat) (hdata : data = some block) (chunk : List UInt8)
      (hchunk : chunkRead i.reply = some chunk) (deadline : Int) (comm : Comm Handler Nat)
      (hsets : Sets fd ((w.comm.fdTable fd).toWrite .doEchoResponse data deadline) writeEvents
        w.comm comm) :
      Effect fd data i w .doEchoHandler
        { comm, app := (setSendBuf block (fun buf => fillSendBuf buf chunk) w).app }
  | answered (block : Nat) (hdata : data = some block) (hsent : 0 < i.reply.sent) (deadline : Int)
      (comm : Comm Handler Nat)
      (hsets : Sets fd ((w.comm.fdTable fd).toRead data deadline) readEvents w.comm comm) :
      Effect fd data i w .doEchoResponse
        { comm, app := { w.app with
          written := (fd, (replyText w.app.heap block).take i.reply.sent.toNat) :: w.app.written } }
  | cut (block : Nat) (hdata : data = some block) (hsent : i.reply.sent = 0) (w' : EchoWorld)
      (hup : HungUp fd data { w with app := { w.app with
        written := (fd, (replyText w.app.heap block).take i.reply.sent.toNat) :: w.app.written } }
        w') :
      Effect fd data i w .doEchoResponse w'
  | refused (block : Nat) (hdata : data = some block) (hsent : i.reply.sent < 0) :
      Effect fd data i w .doEchoResponse { w with app := { w.app with
        written := (fd, (replyText w.app.heap block).take i.reply.sent.toNat) :: w.app.written } }
  | timedOut (w' : EchoWorld) (hup : HungUp fd data w w') : Effect fd data i w .doEchoTimeout w'

section Handlers

variable {fd : Nat} {data : Option Nat} {i : Input Reply} {w w' : EchoWorld}

theorem onComm_ends {P : Comm Handler Nat → Prop} {F : Trap → Prop}
    {f : Comm Handler Nat → Except Trap (Comm Handler Nat)} (h : Ends P F (f w.comm)) :
    Ends (fun w' => ∃ comm, w' = { w with comm } ∧ P comm) F (onComm f w) :=
  h.bind fun comm hcomm => ⟨comm, rfl, hcomm⟩

/-- Two calls on one descriptor. -/
theorem onComm_sets {f g : Comm Handler Nat → Except Trap (Comm Handler Nat)}
    {F : Fde Handler Nat} {G : Int → Fde Handler Nat} {events events' : UInt32}
    (hf : Ends (Sets fd F events w.comm) (fun _ => w.comm.biggestFd ≤ fd) (f w.comm))
    (hg : ∀ c, c.fdTable fd = F → c.epollState fd = events →
      Ends (fun c' => ∃ n, Sets fd (G n) events' c c') (fun _ => c.biggestFd ≤ fd) (g c)) :
    Ends (fun w' => ∃ comm, w' = { w with comm } ∧ ∃ n, Sets fd (G n) events' w.comm comm)
      (fun _ => w.comm.biggestFd ≤ fd) (do let w ← onComm f w; onComm g w) := by
  refine (onComm_ends hf).bind ?_
  rintro w₁ ⟨comm, rfl, hsets⟩
  refine (onComm_ends (hg comm hsets.fdTable_self hsets.epollState_self)).mono ?_ ?_
  · rintro w₂ ⟨comm', rfl, n', hsets'⟩
    exact ⟨comm', rfl, n', hsets.trans hsets'⟩
  · intro _ hle
    rwa [hsets.biggestFd] at hle

theorem Fde.arm_some (F : Fde Handler Nat) (handler : Handler) (data : Option Nat) (deadline : Int) :
    F.arm (some handler) data deadline
      = { F with timeoutHandler := some handler, timeoutData := data, timeout := deadline } := by
  simp [Fde.arm]

/-- A connection begins to wait for input. -/
theorem toRead_ends (fd : Nat) (data : Option Nat) (i : Input Reply) (w : EchoWorld) :
    Ends (fun w' => ∃ comm, w' = { w with comm } ∧
        ∃ n, Sets fd ((w.comm.fdTable fd).toRead data n) readEvents w.comm comm)
      (fun _ => w.comm.biggestFd ≤ fd)
      (do
        let w ← onComm (commUpdateReadHandler i.ctl fd (some .doEchoHandler) data) w
        onComm (commSetTimeout fd 10 (some .doEchoTimeout) data) w) := by
  refine onComm_sets (commUpdateReadHandler_sets i.ctl fd _ data w.comm) ?_
  intro c htable hstate
  refine (commSetTimeout_sets fd (by decide) .doEchoTimeout data c).mono ?_ fun _ hle => hle
  intro c' hsets
  rw [htable, hstate, Fde.arm_some] at hsets
  exact ⟨_, hsets⟩

/-- A connection begins to wait for output. -/
theorem toWrite_ends (fd : Nat) (handler : Handler) (data : Option Nat) {timeout : Int}
    (htimeout : 0 ≤ timeout) (i : Input Reply) (w : EchoWorld) :
    Ends (fun w' => ∃ comm, w' = { w with comm } ∧
        ∃ n, Sets fd ((w.comm.fdTable fd).toWrite handler data n) writeEvents w.comm comm)
      (fun _ => w.comm.biggestFd ≤ fd)
      (do
        let w ← onComm (commUpdateWriteHandler i.ctl fd (some handler) data) w
        onComm (commSetTimeout fd timeout (some .doEchoTimeout) data) w) := by
  refine onComm_sets (commUpdateWriteHandler_sets i.ctl fd _ data w.comm) ?_
  intro c htable hstate
  refine (commSetTimeout_sets fd htimeout .doEchoTimeout data c).mono ?_ fun _ hle => hle
  intro c' hsets
  rw [htable, hstate, Fde.arm_some] at hsets
  exact ⟨_, hsets⟩

/-- The same as `toRead_ends`, with the timeout first. -/
theorem toRead_ends' (fd : Nat) (data : Option Nat) (i : Input Reply) (w : EchoWorld) :
    Ends (fun w' => ∃ comm, w' = { w with comm } ∧
        ∃ n, Sets fd ((w.comm.fdTable fd).toRead data n) readEvents w.comm comm)
      (fun _ => w.comm.biggestFd ≤ fd)
      (do
        let w ← onComm (commSetTimeout fd 10 (some .doEchoTimeout) data) w
        onComm (commUpdateReadHandler i.ctl fd (some .doEchoHandler) data) w) := by
  refine onComm_sets (commSetTimeout_sets fd (by decide) .doEchoTimeout data w.comm) ?_
  intro c htable _
  refine (commUpdateReadHandler_sets i.ctl fd _ data c).mono ?_ fun _ hle => hle
  intro c' hsets
  rw [htable, Fde.arm_some] at hsets
  exact ⟨_, hsets⟩

theorem closeAndFree_ends (fd : Nat) (data : Option Nat) (i : Input Reply) (w : EchoWorld) :
    Ends (HungUp fd data w) (fun _ => True) (closeAndFree fd data i w) := by
  refine ((onComm_ends (commClose_sets i.ctl fd w.comm)).mono (fun _ h => h)
    fun _ _ => trivial).bind ?_
  rintro w₁ ⟨comm, rfl, hsets⟩
  cases data with
  | none => exact ⟨hsets, rfl, rfl⟩
  | some block =>
      rw [free]
      split
      · trivial
      · exact ⟨hsets, rfl, rfl⟩

theorem acceptConnection_effect (fd : Nat) (data : Option Nat) (i : Input Reply) (w : EchoWorld) :
    Ends (Effect fd data i w .acceptConnection) (fun _ => True) (acceptConnection i w) := by
  rw [acceptConnection]
  split
  · next haccept => exact .nobody haccept
  next newFd haccept =>
  dsimp only
  split
  · refine (toWrite_ends newFd .doWelcomeHandler _ (by decide) i _).mono ?_ fun _ _ => trivial
    rintro w' ⟨comm, rfl, n, hsets⟩
    exact .joined newFd haccept n comm
      ⟨hsets.lt, hsets.biggestFd, hsets.fdTable, hsets.epollState⟩
  · next hzero =>
    obtain rfl : newFd = 0 := by omega
    exact .zero haccept

theorem doWelcomeHandler_effect (fd : Nat) (data : Option Nat) (i : Input Reply) (w : EchoWorld) :
    Ends (Effect fd data i w .doWelcomeHandler) (fun _ => w.comm.biggestFd ≤ fd)
      (doWelcomeHandler fd data i w) := by
  rw [doWelcomeHandler]
  dsimp only
  split
  · next hsent =>
    refine (toRead_ends fd data i _).mono ?_ fun _ hle => hle
    rintro w' ⟨comm, rfl, n, hsets⟩
    exact .greeted hsent n comm hsets
  · next hsent => exact .interrupted hsent

theorem doEchoHandler_effect (fd : Nat) (data : Option Nat) (i : Input Reply) (w : EchoWorld) :
    Ends (Effect fd data i w .doEchoHandler) (fun _ => True) (doEchoHandler fd data i w) := by
  unfold doEchoHandler
  split
  · trivial
  next block =>
  split
  · next hincoming => exact .unread block rfl (by rw [chunkRead, hincoming]; rfl)
  next incoming hincoming =>
  have hchunk : chunkRead i.reply = (some (incoming.take (bufLen - 2 - 1))).filter fun bytes =>
      bytes ≠ [] ∧ isQuit bytes = false := by
    rw [chunkRead, hincoming]
    rfl
  dsimp only
  split
  · next hnil =>
    refine (closeAndFree_ends fd _ i _).mono (fun w' hup => ?_) fun _ _ => trivial
    exact .closed block rfl (by rw [hchunk, hnil]; rfl) _ w' hup
  next hnil =>
  split
  · next hquit =>
    refine (closeAndFree_ends fd _ i _).mono (fun w' hup => ?_) fun _ _ => trivial
    exact .closed block rfl (by rw [hchunk, Option.filter_some, if_neg (by simp [hquit])]) _ w' hup
  · next hquit =>
    refine (toWrite_ends fd .doEchoResponse _ (by decide) i _).mono ?_ fun _ _ => trivial
    rintro w' ⟨comm, rfl, n, hsets⟩
    refine .received block rfl _ ?_ n comm hsets
    rw [hchunk, Option.filter_some, if_pos (by simp [hnil, hquit])]

theorem doEchoResponse_effect (fd : Nat) (data : Option Nat) (i : Input Reply) (w : EchoWorld) :
    Ends (Effect fd data i w .doEchoResponse) (fun _ => True) (doEchoResponse fd data i w) := by
  unfold doEchoResponse
  split
  · trivial
  next block =>
  dsimp only
  split
  · next hsent =>
    refine (toRead_ends' fd _ i _).mono ?_ fun _ _ => trivial
    rintro w' ⟨comm, rfl, n, hsets⟩
    exact .answered block rfl hsent n comm hsets
  next hsent =>
  split
  · next hzero =>
    refine (closeAndFree_ends fd _ i _).mono (fun w' hup => ?_) fun _ _ => trivial
    exact .cut block rfl hzero w' hup
  · next hzero => exact .refused block rfl (by omega)

/-- Every call that returns has one of the effects. -/
theorem callHandler_effect (handler : Handler) (fd : Nat) (data : Option Nat) (i : Input Reply)
    (w : EchoWorld) :
    Ends (Effect fd data i w handler) (fun _ => True) (callHandler handler fd data i w) := by
  rw [callHandler]
  split
  · trivial
  cases handler with
  | acceptConnection => exact acceptConnection_effect fd data i w
  | doWelcomeHandler =>
      exact (doWelcomeHandler_effect fd data i w).mono (fun _ h => h) fun _ _ => trivial
  | doEchoHandler => exact doEchoHandler_effect fd data i w
  | doEchoResponse => exact doEchoResponse_effect fd data i w
  | doEchoTimeout =>
      exact (closeAndFree_ends fd data i w).mono (fun w' hup => .timedOut w' hup) fun _ _ => trivial

end Handlers

-- ============================================================================
-- Steps
-- ============================================================================

/-- What a step does to the tables and the connections if it calls no handler. -/
structure Idle (w w' : WatchWorld) : Prop where
  biggestFd : w'.comm.biggestFd = w.comm.biggestFd
  fdTable : w'.comm.fdTable = w.comm.fdTable
  epollState : w'.comm.epollState = w.comm.epollState
  app : w'.app = w.app

/-- What a step can do: nothing, call the read handler of an event, call its write handler, or
    deal with a timeout. -/
inductive Step (m : WatchLoop) (i : Input Reply) (m' : WatchLoop) : Prop where
  | idle (hidle : Idle m.world m'.world) (hcontrol : ∀ event batch, m'.control ≠ .write event batch)
  | unready (event : EpollEvent) (batch : List EpollEvent) (hbefore : m.control = .read (event :: batch))
      (hafter : m'.control = .write event batch)
      (hno : (m.world.comm.fdTable event.fd).readHandler = none ∨
        event.events &&& ~~~epollOut = 0) (hidle : Idle m.world m'.world)
  | read (event : EpollEvent) (batch : List EpollEvent) (hbefore : m.control = .read (event :: batch))
      (hafter : m'.control = .write event batch) (handler : Handler)
      (hhandler : (m.world.comm.fdTable event.fd).readHandler = some handler)
      (hevent : event.events &&& ~~~epollOut ≠ 0)
      (hcall : watchHandler handler event.fd (m.world.comm.fdTable event.fd).readData i
        (m.world.tick i) = .ok m'.world)
  | write (event : EpollEvent) (batch : List EpollEvent) (hbefore : m.control = .write event batch)
      (hafter : m'.control = .read batch) (handler : Handler)
      (hhandler : (m.world.comm.fdTable event.fd).writeHandler = some handler)
      (hevent : event.events &&& ~~~epollIn ≠ 0)
      (hcall : watchHandler handler event.fd (m.world.comm.fdTable event.fd).writeData i
        (m.world.tick i) = .ok m'.world)
  | timeout (fd : Nat) (hafter : m'.control = .timeouts (fd + 1)) (handler : Handler)
      (hhandler : (m.world.comm.fdTable fd).timeoutHandler = some handler)
      (hcall : watchHandler handler fd (m.world.comm.fdTable fd).timeoutData i
        { m.world.tick i with comm := setEntry fd Fde.fired (logExpired fd (m.world.tick i).comm) }
        = .ok m'.world)
  | expired (fd : Nat) (hafter : m'.control = .timeouts (fd + 1))
      (hsets : Sets fd Fde.zero 0 m.world.comm m'.world.comm) (happ : m'.world.app = m.world.app)

section Steps

variable {m m' : WatchLoop} {i : Input Reply}

theorem Idle.refl (w : WatchWorld) : Idle w w := ⟨rfl, rfl, rfl, rfl⟩

theorem idle_tick (i : Input Reply) (w : WatchWorld) : Idle w (w.tick i) := ⟨rfl, rfl, rfl, rfl⟩

theorem checkTimeout_step {fd : Nat} {w' : WatchWorld}
    (h : checkTimeout watchHandler fd i (m.world.tick i) = .ok w') :
    Step m i ⟨w', .timeouts (fd + 1)⟩ := by
  unfold checkTimeout at h
  dsimp only at h
  split at h
  · cases h
    exact .idle (idle_tick i _) nofun
  split at h
  · cases h
    exact .idle (idle_tick i _) nofun
  split at h
  · next handler hhandler => exact .timeout fd rfl handler hhandler h
  · obtain ⟨comm, hclose, hw'⟩ := exists_ok_of_bind h
    cases hw'
    obtain ⟨hlt, hbig, htable, hstate⟩ := (commClose_sets i.ctl fd _).of_ok hclose
    exact .expired fd rfl ⟨hlt, hbig, htable, hstate⟩ rfl

theorem loopStep_step (h : loopStep watchHandler m i = .ok m') : Step m i m' := by
  unfold loopStep at h
  dsimp only at h
  split at h
  · cases h
    refine .idle (idle_tick i _) ?_
    intro event batch
    dsimp only
    split <;> exact nofun
  · next fd hcontrol =>
    split at h
    · obtain ⟨w', hcheck, hm'⟩ := exists_ok_of_bind h
      cases hm'
      exact checkTimeout_step hcheck
    · cases h
      exact .idle (idle_tick i _) nofun
  · split at h
    · cases h
      exact .idle ⟨rfl, rfl, rfl, rfl⟩ nofun
    · cases h
      exact .idle (idle_tick i _) nofun
  · cases h
    exact .idle (idle_tick i _) nofun
  · next event batch hcontrol =>
    obtain ⟨w', hcall, hm'⟩ := exists_ok_of_bind h
    cases hm'
    unfold callReadHandler at hcall
    split at hcall
    · next handler hhandler =>
      split at hcall
      · next hevent => exact .read event batch hcontrol rfl handler hhandler hevent hcall
      · next hevent =>
        cases hcall
        exact .unready event batch hcontrol rfl (.inr (not_not.mp hevent)) (idle_tick i _)
    · next hnone =>
      cases hcall
      exact .unready event batch hcontrol rfl (.inl hnone) (idle_tick i _)
  · next event batch hcontrol =>
    obtain ⟨w', hcall, hm'⟩ := exists_ok_of_bind h
    cases hm'
    unfold callWriteHandler at hcall
    split at hcall
    · next handler hhandler =>
      split at hcall
      · next hevent => exact .write event batch hcontrol rfl handler hhandler hevent hcall
      · cases hcall
        exact .idle (idle_tick i _) nofun
    · cases hcall
      exact .idle (idle_tick i _) nofun
  · cases h
    exact .idle ⟨rfl, rfl, rfl, rfl⟩ nofun

/-- The write handler of an event returns. -/
theorem loopStep_write {event : EpollEvent} {batch : List EpollEvent} {handler : Handler}
    {w' : WatchWorld} (hcontrol : m.control = .write event batch)
    (hhandler : (m.world.comm.fdTable event.fd).writeHandler = some handler)
    (hevent : event.events &&& ~~~epollIn ≠ 0)
    (hcall : watchHandler handler event.fd (m.world.comm.fdTable event.fd).writeData i
      (m.world.tick i) = .ok w') :
    loopStep watchHandler m i = .ok ⟨w', .read batch⟩ := by
  have hwrite : callWriteHandler watchHandler event.fd (event.events &&& ~~~epollIn) i
      (m.world.tick i) = .ok w' := by
    rw [callWriteHandler, show ((m.world.tick i).comm.fdTable event.fd).writeHandler = some handler
      from hhandler]
    exact (if_pos hevent).trans hcall
  rw [loopStep, hcontrol]
  dsimp only
  rw [hwrite]
  rfl

/-- A call and its record. -/
theorem watchHandler_ok {handler : Handler} {fd : Nat} {data : Option Nat} {w w' : WatchWorld}
    (h : watchHandler handler fd data i w = .ok w') :
    ∃ v, callHandler handler fd data i (w.mapApp Watched.app) = .ok v ∧ w' =
      { comm := v.comm
        app := ⟨v.app, note handler fd i w.comm (writtenSince w.app.app v.app) w.app.history⟩ } := by
  obtain ⟨v, hcall, hw'⟩ := exists_ok_of_bind h
  exact ⟨v, hcall, (Except.ok.inj hw').symm⟩

theorem writtenSince_cons {app app' : EchoApp} {fd : Nat} {bytes : List UInt8}
    (h : app'.written = (fd, bytes) :: app.written) : writtenSince app app' = bytes := by
  rw [writtenSince, h, List.length_cons, Nat.add_sub_cancel_left]
  exact List.append_nil bytes

end Steps

-- ============================================================================
-- Roles
-- ============================================================================

/-- The handlers stand where the server puts them. -/
structure Fde.Role (F : Fde Handler Nat) : Prop where
  read : ∀ handler, F.readHandler = some handler →
    handler = .acceptConnection ∨ handler = .doEchoHandler
  write : ∀ handler, F.writeHandler = some handler →
    handler = .doWelcomeHandler ∨ handler = .doEchoResponse
  timeout : ∀ handler, F.timeoutHandler = some handler → handler = .doEchoTimeout

/-- The tables of the server. -/
structure Roles (c : Comm Handler Nat) : Prop where
  role : ∀ fd, (c.fdTable fd).Role
  lt : ∀ fd, (c.fdTable fd).writeHandler.isSome = true → fd < c.biggestFd

/-- What holds in every state of the server. -/
structure ServerInv (w : WatchWorld) : Prop where
  heap : HeapInv (w.mapApp Watched.app)
  roles : Roles w.comm

section Roles

variable {fd : Nat} {data : Option Nat} {i : Input Reply} {F : Fde Handler Nat} {events : UInt32}
  {c c' : Comm Handler Nat}

theorem Fde.Role.zero : (Fde.zero : Fde Handler Nat).Role := ⟨nofun, nofun, nofun⟩

theorem Fde.Role.toRead (h : F.Role) (data : Option Nat) (deadline : Int) :
    (F.toRead data deadline).Role := by
  refine ⟨?_, h.write, ?_⟩
  · rintro handler ⟨⟩
    exact .inr rfl
  · rintro handler ⟨⟩
    rfl

theorem Fde.Role.toWrite (h : F.Role) {handler : Handler}
    (hhandler : handler = .doWelcomeHandler ∨ handler = .doEchoResponse) (data : Option Nat)
    (deadline : Int) : (F.toWrite handler data deadline).Role := by
  refine ⟨h.read, ?_, ?_⟩
  · rintro _ ⟨⟩
    exact hhandler
  · rintro _ ⟨⟩
    rfl

theorem Roles.sets (h : Roles c) (hsets : Sets fd F events c c') (hF : F.Role) : Roles c' := by
  refine ⟨?_, ?_⟩
  · intro k
    rw [hsets.fdTable]
    by_cases hk : k = fd
    · rw [hk, Function.update_self]
      exact hF
    · rw [Function.update_of_ne hk]
      exact h.role k
  · intro k hsome
    rw [hsets.biggestFd]
    by_cases hk : k = fd
    · rw [hk]
      exact hsets.lt
    · rw [hsets.fdTable, Function.update_of_ne hk] at hsome
      exact h.lt k hsome

theorem Roles.of_fdTable (h : Roles c) (hbig : c'.biggestFd = c.biggestFd)
    (htable : c'.fdTable = c.fdTable) : Roles c' := by
  refine ⟨?_, ?_⟩
  · rw [htable]
    exact h.role
  · rw [htable, hbig]
    exact h.lt

theorem Effect.roles {handler : Handler} {w w' : EchoWorld} (he : Effect fd data i w handler w')
    (h : Roles w.comm) : Roles w'.comm := by
  cases he with
  | nobody | interrupted | unread | refused => exact h
  | zero => exact ⟨h.role, h.lt⟩
  | joined newFd _ n comm hsets => exact h.sets hsets ((h.role newFd).toWrite (.inl rfl) _ n)
  | greeted _ n comm hsets => exact h.sets hsets ((h.role fd).toRead _ n)
  | closed block _ _ f w' hup => exact Roles.sets (c := w.comm) h hup.sets .zero
  | received block _ chunk _ n comm hsets => exact h.sets hsets ((h.role fd).toWrite (.inr rfl) _ n)
  | answered block _ _ n comm hsets => exact h.sets hsets ((h.role fd).toRead _ n)
  | cut block _ _ w' hup => exact Roles.sets (c := w.comm) h hup.sets .zero
  | timedOut w' hup => exact h.sets hup.sets .zero

/-- A call of a handler. -/
theorem Roles.watchHandler {handler : Handler} {w w' : WatchWorld} (h : Roles w.comm)
    (hcall : watchHandler handler fd data i w = .ok w') : Roles w'.comm := by
  obtain ⟨v, hv, rfl⟩ := watchHandler_ok hcall
  exact ((callHandler_effect handler fd data i _).of_ok hv).roles h

theorem Roles.fired (h : Roles c) (fd : Nat) : Roles (setEntry fd Fde.fired (logExpired fd c)) := by
  have hentry : ∀ k, ((setEntry fd Fde.fired (logExpired fd c)).fdTable k).Role ∧
      ((setEntry fd Fde.fired (logExpired fd c)).fdTable k).writeHandler
        = (c.fdTable k).writeHandler := by
    intro k
    show (update c.fdTable fd _ k).Role ∧ (update c.fdTable fd _ k).writeHandler = _
    by_cases hk : k = fd
    · rw [hk, Function.update_self]
      exact ⟨⟨(h.role fd).read, (h.role fd).write, nofun⟩, rfl⟩
    · rw [Function.update_of_ne hk]
      exact ⟨h.role k, rfl⟩
  refine ⟨fun k => (hentry k).1, ?_⟩
  intro k hsome
  rw [(hentry k).2] at hsome
  exact h.lt k hsome

theorem ServerInv.step {m m' : WatchLoop} (h : ServerInv m.world)
    (hstep : loopStep Epoll.watchHandler m i = .ok m') : ServerInv m'.world := by
  constructor
  case heap =>
    have hforget := loopStep_mapApp watchHandler_forget m i
    rw [hstep] at hforget
    exact (loopStep_heapInv (m := m.mapApp Watched.app) h.heap i).of_ok hforget.symm
  case roles =>
    have htick : Roles (m.world.tick i).comm := ⟨h.roles.role, h.roles.lt⟩
    cases loopStep_step hstep with
    | idle hidle | unready _ _ _ _ _ hidle => exact h.roles.of_fdTable hidle.biggestFd hidle.fdTable
    | read _ _ _ _ _ _ _ hcall | write _ _ _ _ _ _ _ hcall =>
        exact Roles.watchHandler htick hcall
    | timeout fd _ _ _ hcall => exact Roles.watchHandler (htick.fired fd) hcall
    | expired fd _ hsets _ => exact h.roles.sets hsets .zero

/-- The server starts with its listening socket and without connections. -/
theorem watchStart_serverInv {listenSock : Nat} {isOpen : Nat → Bool} {m : WatchLoop}
    (hstart : watchStart listenSock isOpen i = .ok m) :
    ServerInv m.world ∧ (∀ fd, m.world.app.history fd = []) ∧
      (∀ fd, (m.world.comm.fdTable fd).writeHandler = none) ∧ m.control = .select := by
  obtain ⟨m₀, hstart₀, hm⟩ := exists_ok_of_bind hstart
  cases hm
  have hheap := (echoStart_heapInv listenSock isOpen i).of_ok hstart₀
  rw [echoStart] at hstart₀
  obtain ⟨w, hw, hm₀⟩ := exists_ok_of_bind hstart₀
  cases hm₀
  obtain ⟨comm, hupdate, hw'⟩ := exists_ok_of_bind hw
  cases hw'
  have hsets := (commUpdateReadHandler_sets _ _ _ _ _).of_ok hupdate
  have hwrite : ∀ fd, (comm.fdTable fd).writeHandler = none := by
    intro fd
    rw [hsets.fdTable]
    by_cases hfd : fd = listenSock
    · rw [hfd, Function.update_self]
      rfl
    · rw [Function.update_of_ne hfd]
      rfl
  have hzero : Roles (commInit 102400 (update isOpen listenSock true) i.clock) :=
    ⟨fun _ => .zero, nofun⟩
  refine ⟨⟨hheap, hzero.sets hsets ⟨?_, nofun, nofun⟩⟩, fun _ => rfl, hwrite, rfl⟩
  rintro handler ⟨⟩
  exact .inl rfl

end Roles

end LinuxCodeDemos.Epoll

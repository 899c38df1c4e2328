/-
  LinuxCodeDemos.Epoll.Deadlines

  When a connection of the echo server is timed out.

  A deadline is the cached time `sys_curtime` plus the timeout.  The cached time
  is zero after `comm_init` and is read again only after the handlers of a batch
  have run, so a deadline can lie too early.  It does not if every
  `commSetTimeout` is made while the cached time is the wall clock
  (`echoServer_no_early_timeout`); a connection that is accepted in the first turn
  of the loop is closed in the second (`echoServer_first_turn`).
-/

import LinuxCodeDemos.Epoll.EchoServer

namespace LinuxCodeDemos.Epoll

open Lib
open Function (update)

-- ============================================================================
-- Definitions
-- ============================================================================

/-- The latest `commSetTimeout` of a descriptor: its timeout and the wall clock. -/
def lastTimeout (fd : Nat) : List LogEntry → Option (Int × Int)
  | [] => none
  | .setTimeout k timeout clock :: log => if k = fd then some (timeout, clock) else lastTimeout fd log
  | .ctl .. :: log => lastTimeout fd log
  | .expired .. :: log => lastTimeout fd log

/-- Nothing expires before the time that was last set for it has passed. -/
def NoEarly : List LogEntry → Prop
  | [] => True
  | .expired fd clock :: log =>
      (∃ timeout set, lastTimeout fd log = some (timeout, set) ∧ set + timeout ≤ clock) ∧ NoEarly log
  | .setTimeout .. :: log => NoEarly log
  | .ctl .. :: log => NoEarly log

/-- The handler sets a timeout with these results. -/
def setsTimeout (handler : Handler) (i : Input Reply) (w : EchoWorld) : Bool :=
  match handler with
  | .acceptConnection => (acceptFd i.reply.accepted w.comm).any fun newFd => 0 < newFd
  | .doWelcomeHandler => i.reply.sent = welcome.length
  | .doEchoHandler => i.reply.incoming.any fun incoming =>
      let bytes := incoming.take (bufLen - 2 - 1)
      bytes ≠ [] ∧ isQuit bytes = false
  | .doEchoResponse => 0 < i.reply.sent
  | .doEchoTimeout => false

/-- The handler that a step of the loop calls. -/
def calledHandler (m : EchoLoop) : Option Handler :=
  match m.control with
  | .timeouts fd =>
      let F := m.world.comm.fdTable fd
      if F.timeout ≠ 0 ∧ F.timeout ≤ m.world.comm.sysCurtime then F.timeoutHandler else none
  | .read (event :: _) =>
      if event.events &&& ~~~epollOut ≠ 0 then (m.world.comm.fdTable event.fd).readHandler else none
  | .write event _ =>
      if event.events &&& ~~~epollIn ≠ 0 then (m.world.comm.fdTable event.fd).writeHandler else none
  | _ => none

/-- Time does not go back, and a handler that sets a timeout finds the cached time
    up to date. -/
def TimelyStep (m : EchoLoop) (i : Input Reply) : Prop :=
  m.world.comm.clock ≤ i.clock ∧
    ((calledHandler m).any (fun handler => setsTimeout handler i (m.world.tick i)) = true →
      m.world.comm.sysCurtime = i.clock)

instance (m : EchoLoop) (i : Input Reply) : Decidable (TimelyStep m i) :=
  inferInstanceAs (Decidable (_ ∧ (_ → _)))

/-- Every deadline is the one that was last set. -/
structure OnTime {H D : Type} (c : Comm H D) : Prop where
  armed : ∀ fd, (c.fdTable fd).timeout ≠ 0 → c.sysCurtime ≤ c.clock ∧
    ∃ timeout set, lastTimeout fd c.log = some (timeout, set) ∧
      (c.fdTable fd).timeout = set + timeout
  noEarly : NoEarly c.log

-- ============================================================================
-- The framework
-- ============================================================================

section Framework

variable {H D : Type} {c c' : Comm H D}

/-- Deadlines that are kept or cleared, with nothing new in the log about them. -/
theorem OnTime.frame (h : OnTime c)
    (htimeout : ∀ fd, (c'.fdTable fd).timeout = (c.fdTable fd).timeout ∨
      (c'.fdTable fd).timeout = 0)
    (hlast : ∀ fd, lastTimeout fd c'.log = lastTimeout fd c.log) (hno : NoEarly c'.log)
    (hclock : c.sysCurtime ≤ c.clock → c'.sysCurtime ≤ c'.clock) : OnTime c' := by
  refine ⟨fun fd hne => ?_, hno⟩
  rcases htimeout fd with hsame | hzero
  · rw [hsame] at hne ⊢
    obtain ⟨hcur, timeout, set, hset, heq⟩ := h.armed fd hne
    exact ⟨hclock hcur, timeout, set, (hlast fd).trans hset, heq⟩
  · exact absurd hzero hne

/-- The cached time and the clock are these, and deadlines are in order. -/
def OnTimeAt (cur now : Int) (c : Comm H D) : Prop :=
  OnTime c ∧ c.sysCurtime = cur ∧ c.clock = now

variable {cur now : Int}

theorem OnTimeAt.setEntry (h : OnTimeAt cur now c) {fd : Nat} {f : Fde H D → Fde H D}
    (hf : (f (c.fdTable fd)).timeout = (c.fdTable fd).timeout ∨ (f (c.fdTable fd)).timeout = 0) :
    OnTimeAt cur now (setEntry fd f c) := by
  refine ⟨h.1.frame (fun k => ?_) (fun _ => rfl) h.1.noEarly (fun hcur => hcur), h.2⟩
  show (update c.fdTable fd (f (c.fdTable fd)) k).timeout = _ ∨
    (update c.fdTable fd (f (c.fdTable fd)) k).timeout = 0
  by_cases heq : k = fd
  · rw [heq, Function.update_self]
    exact hf
  · rw [Function.update_of_ne heq]
    exact .inl rfl

theorem OnTimeAt.epollSetEvents (h : OnTimeAt cur now c) (ok : Bool) (fd : Nat)
    (needRead needWrite : Bool) : OnTimeAt cur now (epollSetEvents ok fd needRead needWrite c) := by
  unfold Epoll.epollSetEvents
  simp only
  split
  · exact ⟨h.1.frame (fun _ => .inl rfl) (fun _ => rfl) h.1.noEarly (fun hcur => hcur), h.2⟩
  · exact h

theorem OnTimeAt.closeFd (h : OnTimeAt cur now c) (fd : Nat) : OnTimeAt cur now (closeFd fd c) :=
  ⟨h.1.frame (fun _ => .inl rfl) (fun _ => rfl) h.1.noEarly (fun hcur => hcur), h.2⟩

theorem OnTimeAt.checkFd (fd : Nat) (h : OnTimeAt cur now c') :
    Ends (OnTimeAt cur now) (fun _ => True) (do checkFd fd c; .ok c') := by
  rw [Epoll.checkFd]
  split
  · exact h
  · trivial

theorem OnTimeAt.commUpdateReadHandler (h : OnTimeAt cur now c) (ok : Bool) (fd : Nat)
    (handler : Option H) (data : Option D) :
    Ends (OnTimeAt cur now) (fun _ => True) (commUpdateReadHandler ok fd handler data c) :=
  OnTimeAt.checkFd fd ((h.setEntry (.inl rfl)).epollSetEvents ok fd true false)

theorem OnTimeAt.commUpdateWriteHandler (h : OnTimeAt cur now c) (ok : Bool) (fd : Nat)
    (handler : Option H) (data : Option D) :
    Ends (OnTimeAt cur now) (fun _ => True) (commUpdateWriteHandler ok fd handler data c) :=
  OnTimeAt.checkFd fd ((h.setEntry (.inl rfl)).epollSetEvents ok fd false true)

theorem OnTimeAt.commClose (h : OnTimeAt cur now c) (ok : Bool) (fd : Nat) :
    Ends (OnTimeAt cur now) (fun _ => True) (commClose ok fd c) := by
  unfold Epoll.commClose
  by_cases hzero : fd = 0
  · rw [if_pos hzero]
    trivial
  · rw [if_neg hzero]
    exact OnTimeAt.checkFd fd
      (((h.setEntry (.inr rfl)).epollSetEvents ok fd false false).closeFd fd)

/-- A timeout that is set while the cached time is the wall clock. -/
theorem OnTimeAt.commSetTimeout (h : OnTimeAt cur now c) (hcur : cur = now) (fd : Nat)
    (timeout : Int) (handler : Option H) (data : Option D) :
    Ends (OnTimeAt cur now) (fun _ => True) (commSetTimeout fd timeout handler data c) := by
  obtain ⟨htime, hsys, hclock⟩ := h
  unfold Epoll.commSetTimeout
  split
  · trivial
  split
  · exact OnTimeAt.setEntry ⟨htime, hsys, hclock⟩ (.inr rfl)
  split
  · trivial
  refine ⟨⟨fun k hne => ⟨?_, ?_⟩, htime.noEarly⟩, hsys, hclock⟩
  · show c.sysCurtime ≤ c.clock
    omega
  · by_cases heq : k = fd
    · refine ⟨timeout, c.clock, if_pos heq.symm, ?_⟩
      show (update c.fdTable fd _ k).timeout = _
      rw [heq, Function.update_self]
      show c.sysCurtime + timeout = c.clock + timeout
      omega
    · have hsame : (update c.fdTable fd
          (Fde.arm handler data (c.sysCurtime + timeout) (c.fdTable fd)) k) = c.fdTable k :=
        Function.update_of_ne heq _ _
      have hne' : (c.fdTable k).timeout ≠ 0 := by
        rw [← hsame]
        exact hne
      obtain ⟨_, timeout', set, hset, hdeadline⟩ := htime.armed k hne'
      refine ⟨timeout', set, ?_, ?_⟩
      · exact (if_neg (Ne.symm heq)).trans hset
      · show (update c.fdTable fd _ k).timeout = _
        rw [hsame]
        exact hdeadline

end Framework

-- ============================================================================
-- Handlers
-- ============================================================================

section Handlers

variable {cur now : Int} {w : EchoWorld} {fd : Nat} {data : Option Nat} {i : Input Reply}

/-- Deadlines of a world. -/
abbrev WorldOnTime (cur now : Int) (w : EchoWorld) : Prop := OnTimeAt cur now w.comm

theorem onTime_onComm {f : Comm Handler Nat → Except Trap (Comm Handler Nat)}
    (h : Ends (OnTimeAt cur now) (fun _ => True) (f w.comm)) :
    Ends (WorldOnTime cur now) (fun _ => True) (onComm f w) :=
  h.bind fun _ hcomm => hcomm

theorem onTime_closeAndFree (h : WorldOnTime cur now w) :
    Ends (WorldOnTime cur now) (fun _ => True) (closeAndFree fd data i w) := by
  refine (onTime_onComm (h.commClose i.ctl fd)).bind fun w' hw' => ?_
  refine (free_comm data w').mono (fun w'' hcomm => ?_) fun _ _ => trivial
  rw [WorldOnTime, hcomm]
  exact hw'

theorem onTime_twoCalls {f g : Comm Handler Nat → Except Trap (Comm Handler Nat)}
    (hf : Ends (OnTimeAt cur now) (fun _ => True) (f w.comm))
    (hg : ∀ c, OnTimeAt cur now c → Ends (OnTimeAt cur now) (fun _ => True) (g c)) :
    Ends (WorldOnTime cur now) (fun _ => True) (do let w ← onComm f w; onComm g w) :=
  (onTime_onComm hf).bind fun w' hw' => onTime_onComm (hg w'.comm hw')

theorem onTime_acceptConnection (h : WorldOnTime cur now w)
    (hcur : setsTimeout .acceptConnection i w = true → cur = now) :
    Ends (WorldOnTime cur now) (fun _ => True) (acceptConnection i w) := by
  unfold acceptConnection
  split
  · exact h
  next newFd hfd =>
  have hopen : OnTimeAt cur now { w.comm with isOpen := update w.comm.isOpen newFd true } :=
    ⟨h.1.frame (fun _ => .inl rfl) (fun _ => rfl) h.1.noEarly (fun hc => hc), h.2⟩
  simp only
  split
  · next hpos =>
      have hnow : cur = now := hcur (by
        show (acceptFd i.reply.accepted w.comm).any _ = true
        rw [hfd]
        simpa using hpos)
      exact onTime_twoCalls (hopen.commUpdateWriteHandler i.ctl newFd _ _)
        fun c hc => hc.commSetTimeout hnow newFd 30 _ _
  · exact hopen

theorem onTime_doWelcomeHandler (h : WorldOnTime cur now w)
    (hcur : setsTimeout .doWelcomeHandler i w = true → cur = now) :
    Ends (WorldOnTime cur now) (fun _ => True) (doWelcomeHandler fd data i w) := by
  unfold doWelcomeHandler
  split
  · next hsent =>
      have hnow : cur = now := hcur (decide_eq_true hsent)
      exact onTime_twoCalls (h.commUpdateReadHandler i.ctl fd _ _)
        fun c hc => hc.commSetTimeout hnow fd 10 _ _
  · exact h

theorem onTime_doEchoHandler (h : WorldOnTime cur now w)
    (hcur : setsTimeout .doEchoHandler i w = true → cur = now) :
    Ends (WorldOnTime cur now) (fun _ => True) (doEchoHandler fd data i w) := by
  unfold doEchoHandler
  split
  · trivial
  next block =>
  split
  · exact h
  next incoming hincoming =>
  simp only
  split
  · exact onTime_closeAndFree h
  next hne =>
  split
  · exact onTime_closeAndFree h
  · next hquit =>
      have hnow : cur = now := hcur (by
        show i.reply.incoming.any _ = true
        rw [hincoming]
        exact decide_eq_true ⟨hne, Bool.eq_false_iff.mpr hquit⟩)
      exact onTime_twoCalls (w := setSendBuf block _ w)
        (h.commUpdateWriteHandler i.ctl fd _ _)
        fun c hc => hc.commSetTimeout hnow fd 10 _ _

theorem onTime_doEchoResponse (h : WorldOnTime cur now w)
    (hcur : setsTimeout .doEchoResponse i w = true → cur = now) :
    Ends (WorldOnTime cur now) (fun _ => True) (doEchoResponse fd data i w) := by
  unfold doEchoResponse
  split
  · trivial
  simp only
  split
  · next hsent =>
      have hnow : cur = now := hcur (decide_eq_true hsent)
      exact onTime_twoCalls (h.commSetTimeout hnow fd 10 _ _)
        fun c hc => hc.commUpdateReadHandler i.ctl fd _ _
  split
  · exact onTime_closeAndFree h
  · exact h

/-- A handler that sets a timeout only while the cached time is the wall clock. -/
theorem onTime_callHandler (h : WorldOnTime cur now w) (handler : Handler)
    (hcur : setsTimeout handler i w = true → cur = now) :
    Ends (WorldOnTime cur now) (fun _ => True) (callHandler handler fd data i w) := by
  unfold callHandler
  by_cases hfreed : (data.any fun block => (w.app.heap block).isNone) = true
  · rw [if_pos hfreed]
    trivial
  rw [if_neg hfreed]
  cases handler with
  | acceptConnection => exact onTime_acceptConnection h hcur
  | doWelcomeHandler => exact onTime_doWelcomeHandler h hcur
  | doEchoHandler => exact onTime_doEchoHandler h hcur
  | doEchoResponse => exact onTime_doEchoResponse h hcur
  | doEchoTimeout => exact onTime_closeAndFree h

end Handlers

-- ============================================================================
-- Runs
-- ============================================================================

/-- The clock goes on. -/
theorem OnTime.tick {w : EchoWorld} (h : OnTime w.comm) {i : Input Reply}
    (hclock : w.comm.clock ≤ i.clock) :
    WorldOnTime w.comm.sysCurtime i.clock (w.tick i) :=
  ⟨h.frame (fun _ => .inl rfl) (fun _ => rfl) h.noEarly
    (fun hcur => Int.le_trans hcur hclock), rfl, rfl⟩

theorem OnTime.getCurrentTime {c : Comm Handler Nat} (h : OnTime c) : OnTime (getCurrentTime c) :=
  h.frame (fun _ => .inl rfl) (fun _ => rfl) h.noEarly (fun _ => Int.le_refl _)

/-- What expires has a deadline that has passed. -/
theorem onTime_logExpired {cur now : Int} {c : Comm Handler Nat} (h : OnTimeAt cur now c) {fd : Nat}
    (hset : (c.fdTable fd).timeout ≠ 0) (hpast : (c.fdTable fd).timeout ≤ c.sysCurtime) :
    OnTimeAt cur now (logExpired fd c) := by
  obtain ⟨hcur, timeout, set, hlast, hdeadline⟩ := h.1.armed fd hset
  refine ⟨h.1.frame (fun _ => .inl rfl) (fun _ => rfl) ⟨?_, h.1.noEarly⟩ (fun hc => hc), h.2⟩
  exact ⟨timeout, set, hlast, by omega⟩

theorem onTime_checkTimeout {cur now : Int} {w : EchoWorld} (h : WorldOnTime cur now w) (fd : Nat)
    (i : Input Reply)
    (hcur : (w.comm.fdTable fd).timeout ≠ 0 → (w.comm.fdTable fd).timeout ≤ w.comm.sysCurtime →
      ∀ handler, (w.comm.fdTable fd).timeoutHandler = some handler →
        setsTimeout handler i w = true → cur = now) :
    Ends (WorldOnTime cur now) (fun _ => True) (checkTimeout callHandler fd i w) := by
  unfold checkTimeout
  simp only
  split
  · exact h
  next hset =>
  split
  · exact h
  next hpast =>
  have hlog := onTime_logExpired h hset (by omega)
  split
  · next callback hcallback =>
      refine onTime_callHandler (hlog.setEntry (.inl rfl)) callback fun hsets => ?_
      refine hcur hset (by omega) callback hcallback ?_
      cases callback <;> exact hsets
  · exact (hlog.commClose i.ctl fd).bind fun _ hcomm => hcomm

/-- One step of the loop. -/
theorem loopStep_onTime {m : EchoLoop} {i : Input Reply} (h : OnTime m.world.comm)
    (htimely : TimelyStep m i) :
    Ends (fun m' => OnTime m'.world.comm) (fun _ => True) (loopStep callHandler m i) := by
  obtain ⟨hclock, hcur⟩ := htimely
  have htick := h.tick hclock
  have hcalled : ∀ handler, calledHandler m = some handler →
      setsTimeout handler i (m.world.tick i) = true → m.world.comm.sysCurtime = i.clock := by
    intro handler hhandler hsets
    apply hcur
    rw [hhandler]
    exact hsets
  obtain ⟨world, control⟩ := m
  unfold loopStep
  simp only
  cases control with
  | select => exact htick.1
  | timeouts fd =>
      simp only
      split
      · refine Ends.bind (onTime_checkTimeout htick fd i ?_) fun w hw => hw.1
        intro hset hpast handler hhandler hsets
        refine hcalled handler ?_ hsets
        show (if _ then _ else none) = some handler
        rw [if_pos ⟨hset, hpast⟩]
        exact hhandler
      · exact htick.1
  | wait =>
      simp only
      split
      · exact htick.1.getCurrentTime
      · exact htick.1
  | read batch =>
      cases batch with
      | nil => exact htick.1
      | cons event batch =>
          refine Ends.bind (callReadHandler_ends htick ?_) fun w hw => hw.1
          intro hdl hhdl hevent
          refine onTime_callHandler htick hdl fun hsets => hcalled hdl ?_ hsets
          show (if _ then _ else none) = some hdl
          rw [if_pos hevent]
          exact hhdl
  | write event batch =>
      refine Ends.bind (callWriteHandler_ends htick ?_) fun w hw => hw.1
      intro hdl hhdl hevent
      refine onTime_callHandler htick hdl fun hsets => hcalled hdl ?_ hsets
      show (if _ then _ else none) = some hdl
      rw [if_pos hevent]
      exact hhdl
  | refresh => exact htick.1.getCurrentTime

theorem echoStart_onTime (listenSock : Nat) (isOpen : Nat → Bool) (i : Input Reply) :
    Ends (fun m => OnTime m.world.comm) (fun _ => True) (echoStart listenSock isOpen i) := by
  have hempty : OnTimeAt 0 i.clock
      (commInit 102400 (update isOpen listenSock true) i.clock : Comm Handler Nat) :=
    ⟨⟨fun _ hne => absurd rfl hne, trivial⟩, rfl, rfl⟩
  unfold echoStart
  exact (onTime_onComm (hempty.commUpdateReadHandler i.ctl listenSock _ _)).bind
    fun w hw => hw.1

/-- In every run in which each handler that sets a timeout finds the cached time up
    to date, nothing is timed out before its time. -/
theorem echoServer_no_early_timeout (listenSock : Nat) (isOpen : Nat → Bool)
    (start : Input Reply) (inputs : List (Input Reply))
    (htimely : ∀ m, echoStart listenSock isOpen start = .ok m →
      AlongRun (loopStep callHandler) TimelyStep m inputs) :
    ∀ m, echoRun listenSock isOpen start inputs = .ok m → NoEarly m.world.comm.log := by
  intro m hm
  unfold echoRun at hm
  cases hstart : echoStart listenSock isOpen start with
  | error t =>
      rw [hstart] at hm
      cases hm
  | ok m₀ =>
      rw [hstart] at hm
      have hinv := (echoStart_onTime listenSock isOpen start).of_ok hstart
      have hrun := runSteps_ends (fun s i hs hc => loopStep_onTime hs hc) hinv
        (htimely m₀ hstart)
      exact (hrun.of_ok hm).noEarly

/-- Nothing happens but time. -/
def quiet (clock : Int) : Input Reply :=
  { clock, gate := false, wait := some [], ctl := true
    reply := { accepted := none, allocated := true, incoming := none, sent := -1 } }

/-- A turn without timeouts in which the listening socket 3 is readable and 5 is
    accepted, up to the final `getCurrentTime`. -/
def acceptTurn (clock clock' : Int) : List (Input Reply) :=
  [quiet clock, { quiet clock with wait := some [{ fd := 3, events := epollIn }] },
    { quiet clock with reply := { (quiet clock).reply with accepted := some 5 } },
    quiet clock, quiet clock, quiet clock']

/-- The scan of the next turn, up to descriptor 5. -/
def scanTurn (clock : Int) : List (Input Reply) :=
  { quiet clock with gate := true } :: List.replicate 6 (quiet clock)

/-- A turn in which nothing happens. -/
def idleTurn (clock : Int) : List (Input Reply) := List.replicate 4 (quiet clock)

/-- An idle turn first: the connection is closed thirty seconds later. -/
theorem echoServer_no_early_timeout_idle :
    ∃ m, echoRun 3 (fun fd => fd < 3) (quiet 1000)
        (idleTurn 1000 ++ acceptTurn 1000 1030 ++ scanTurn 1030) = .ok m ∧
      .expired 5 1030 ∈ m.world.comm.log ∧ NoEarly m.world.comm.log := by
  have hlog : (echoRun 3 (fun fd => fd < 3) (quiet 1000)
      (idleTurn 1000 ++ acceptTurn 1000 1030 ++ scanTurn 1030)).map
        (fun m => decide (.expired 5 1030 ∈ m.world.comm.log)) = .ok true := by
    decide +kernel
  have hearly := echoServer_no_early_timeout 3 (fun fd => fd < 3) (quiet 1000)
    (idleTurn 1000 ++ acceptTurn 1000 1030 ++ scanTurn 1030) (by
      intro m hm
      cases hm
      decide +kernel)
  obtain ⟨m, hrun, hexpired⟩ := exists_ok_of_map hlog
  exact ⟨m, hrun, of_decide_eq_true hexpired, hearly m hrun⟩

/-- Accepted in the first turn, closed in the next, a second later. -/
theorem echoServer_first_turn :
    ((acceptTurn 1000 1001 ++ scanTurn 1001).map Input.clock).Pairwise (· ≤ ·) ∧
      ∃ m, echoRun 3 (fun fd => fd < 3) (quiet 1000) (acceptTurn 1000 1001 ++ scanTurn 1001) = .ok m ∧
        ¬ NoEarly m.world.comm.log := by
  have hlog : (echoRun 3 (fun fd => fd < 3) (quiet 1000)
      (acceptTurn 1000 1001 ++ scanTurn 1001)).map (fun m => m.world.comm.log)
      = .ok [.ctl .del 5 true, .expired 5 1001, .setTimeout 5 30 1000, .ctl .add 5 false,
          .ctl .add 3 false] := by
    decide +kernel
  obtain ⟨m, hrun, hentries⟩ := exists_ok_of_map hlog
  refine ⟨by decide, m, hrun, ?_⟩
  rw [hentries]
  rintro ⟨⟨timeout, set, hset, hle⟩, _⟩
  cases hset
  omega

end LinuxCodeDemos.Epoll

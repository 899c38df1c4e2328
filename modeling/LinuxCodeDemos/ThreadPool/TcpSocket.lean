/-
  LinuxCodeDemos.ThreadPool.TcpSocket

  `TcpSocket::Internal` of `tcp.cc` with its event manager.

  - Every method holds the mutex of the socket, so a run is a sequence of whole calls.  The
    handlers `onReceive` and `onCanSend` may run at any time: they are called for events, from the
    task queue, and an event loop that has fetched one may still run it after it was removed.
  - The mutex is not recursive: the callbacks, which run under it, do not call into the socket.
  - The results of `send` and `recv` are chosen by the kernel; behind the listed ones they say
    `EAGAIN`.
  - The descriptor is positive: `write` asks for one that is not negative, the other methods for a
    positive one.  The number belongs to the socket: other users of the event manager keep off it,
    also when it is closed, and nobody stops the manager.

  Nothing that is written is lost or sent twice, and as long as something is left to be sent `_fds`
  has the descriptor for output; the kernel watches it for that, if it refuses no `epoll_ctl`
  (`tcpSocket_run`).
-/

import LinuxCodeDemos.ThreadPool.EventManager
import LinuxCodeDemos.ThreadPool.IOBuffer

namespace LinuxCodeDemos.ThreadPool

open Lib

/-- `TcpSocket::Internal`; of the callbacks, whether the one for the disconnect is set. -/
structure TcpSocket where
  fd : Int
  maxSendSize : Nat
  isStarted : Bool
  recvBuffer : IOBuffer
  sendBuffer : IOBuffer
  disconnectCallback : Bool
  deriving DecidableEq, Repr

/-- What the socket hands to `enqueue`. -/
inductive Task where
  | onReceive
  | onCanSend
  | disconnect
  | disconnectCallback
  deriving DecidableEq, Repr

/-- What `send` returns: it took some bytes, at least one and at most what it was given; or
    `EAGAIN`, another error, or 0. -/
inductive Send where
  | accepted (most : Nat)
  | again
  | failed
  | zero
  deriving DecidableEq, Repr

/-- What `recv` returns; for bytes, also how many the receive callback then consumes. -/
inductive Recv where
  | bytes (data : List UInt8) (consumed : Nat)
  | again
  | failed
  | closed
  deriving DecidableEq, Repr

/-- A socket, its event manager, what was enqueued, and the bytes that went through: handed to
    `write`, taken by `send`, delivered by `recv`, consumed by the receive callback. -/
structure Sys where
  socket : TcpSocket
  em : EventManager
  tasks : List Task
  written : List UInt8
  sent : List UInt8
  received : List UInt8
  consumed : List UInt8

-- ============================================================================
-- The methods
-- ============================================================================

/-- How `onCanSend` leaves its loop. -/
structure Sending where
  buffer : IOBuffer
  sent : List UInt8
  disconnects : Nat
  emptied : Bool
  deriving DecidableEq, Repr

/-- The loop of `onCanSend`. -/
def sendLoop (maxSendSize : Nat) (b : IOBuffer) : List Send → Except Fault Sending
  | [] => .ok { buffer := b, sent := [], disconnects := 0, emptied := b.size = 0 }
  | result :: results =>
      if b.size = 0 then .ok { buffer := b, sent := [], disconnects := 0, emptied := true }
      else do
        let sz := if maxSendSize < b.size then maxSendSize else b.size
        let (b, buf) ← b.pulldown sz
        match buf with
        | none => sendLoop maxSendSize b results
        | some data =>
            match result with
            | .accepted most =>
                let r := min (most + 1) sz
                let rest ← sendLoop maxSendSize (b.consume r).1 results
                .ok { rest with sent := data.take r ++ rest.sent }
            | .again => .ok { buffer := b, sent := [], disconnects := 0, emptied := false }
            | .failed => .ok { buffer := b, sent := [], disconnects := 1, emptied := false }
            | .zero => do
                let rest ← sendLoop maxSendSize b results
                .ok { rest with disconnects := rest.disconnects + 1 }

/-- The loop of `onReceive`: the buffer, the bytes delivered, the bytes consumed, and whether a
    disconnect was enqueued. -/
def receiveLoop (b : IOBuffer) : List Recv → IOBuffer × List UInt8 × List UInt8 × Bool
  | [] => (b, [], [], false)
  | .bytes data consumed :: recvs =>
      let full := b.append data
      let rest := receiveLoop (full.consume consumed).1 recvs
      let taken := if (full.consume consumed).2 then full.blocks.flatten.take consumed else []
      (rest.1, data ++ rest.2.1, taken ++ rest.2.2.1, rest.2.2.2)
  | .again :: _ => (b, [], [], false)
  | .failed :: _ => (b, [], [], true)
  | .closed :: _ => (b, [], [], true)

namespace Sys

/-- The disconnect callback is enqueued and forgotten. -/
def enqueueDisconnect (s : Sys) : Sys :=
  if s.socket.disconnectCallback then
    { s with tasks := s.tasks ++ [.disconnectCallback]
             socket := { s.socket with disconnectCallback := false } }
  else s

/-- `start`. -/
def start (s : Sys) : Sys :=
  if s.socket.isStarted then s
  else
    let s := { s with socket := { s.socket with isStarted := true } }
    if 0 < s.socket.fd then
      { s with
        em := (s.em.watchFd s.socket.fd .emRead).watchFd s.socket.fd .emWrite
        tasks := s.tasks ++ [.onReceive, .onCanSend] }
    else s.enqueueDisconnect

/-- `write` of a buffer of the given blocks. -/
def write (s : Sys) (blocks : List (List UInt8)) : Sys :=
  { s with
    socket := { s.socket with
      sendBuffer := s.socket.sendBuffer.appendBuffer (IOBuffer.ofBlocks blocks) }
    em := if 0 ≤ s.socket.fd ∧ s.socket.isStarted ∧ s.socket.sendBuffer.size = 0 then
        s.em.watchFd s.socket.fd .emWrite
      else s.em
    written := s.written ++ blocks.flatten }

/-- `disconnect`. -/
def disconnect (s : Sys) : Sys :=
  if 0 < s.socket.fd then
    let em := ((s.em.removeFd s.socket.fd .emRead).removeFd s.socket.fd .emWrite).removeFd
      s.socket.fd .emError
    enqueueDisconnect
      { s with em := em.close s.socket.fd, socket := { s.socket with fd := -1 } }
  else s

/-- `onReceive`. -/
def onReceive (s : Sys) (recvs : List Recv) : Sys :=
  if 0 < s.socket.fd then
    let loop := receiveLoop s.socket.recvBuffer recvs
    { s with
      socket := { s.socket with recvBuffer := loop.1 }
      received := s.received ++ loop.2.1
      consumed := s.consumed ++ loop.2.2.1
      tasks := s.tasks ++ if loop.2.2.2 then [.disconnect] else [] }
  else s

/-- `onCanSend`. -/
def onCanSend (s : Sys) (sends : List Send) : Except Fault Sys :=
  if 0 < s.socket.fd then do
    let loop ← sendLoop s.socket.maxSendSize s.socket.sendBuffer sends
    .ok { s with
      socket := { s.socket with sendBuffer := loop.buffer }
      sent := s.sent ++ loop.sent
      tasks := s.tasks ++ List.replicate loop.disconnects .disconnect
      em := if loop.emptied then s.em.removeFd s.socket.fd .emWrite else s.em }
  else .ok s

end Sys

/-- The calls of the user, of the event loop, and of the other users of the event manager. -/
inductive Event where
  | start
  | write (blocks : List (List UInt8))
  | disconnect
  | setDisconnectCallback
  | onReceive (recvs : List Recv)
  | onCanSend (sends : List Send)
  | other (c : EventManager.Call)
  deriving DecidableEq, Repr

/-- One call. -/
def Sys.step (s : Sys) : Event → Except Fault Sys
  | .start => .ok s.start
  | .write blocks => .ok (s.write blocks)
  | .disconnect => .ok s.disconnect
  | .setDisconnectCallback => .ok { s with socket := { s.socket with disconnectCallback := true } }
  | .onReceive recvs => .ok (s.onReceive recvs)
  | .onCanSend sends => s.onCanSend sends
  | .other c => .ok { s with em := s.em.call c }

-- ============================================================================
-- The loops
-- ============================================================================

section Loops

variable {b : IOBuffer} {bytes : List UInt8}

/-- What was sent and what is left are the bytes of the buffer; the loop runs to its end exactly
    when nothing is left. -/
theorem sendLoop_ok {maxSendSize : Nat} (hmax : 0 < maxSendSize) (sends : List Send)
    (h : b.Holds bytes) :
    ∃ loop rest, sendLoop maxSendSize b sends = .ok loop ∧ loop.buffer.Holds rest ∧
      loop.sent ++ rest = bytes ∧ (loop.emptied = true → rest = []) ∧
      (loop.emptied = false → bytes ≠ []) := by
  induction sends generalizing b bytes with
  | nil =>
      refine ⟨_, bytes, rfl, h, rfl, fun hempty => ?_, fun hleft hnil => ?_⟩
      · exact List.length_eq_zero_iff.mp (h.size.symm.trans (of_decide_eq_true hempty))
      · rw [hnil] at h
        exact of_decide_eq_false hleft h.size
  | cons result sends ih =>
      have hsize := h.size
      by_cases hzero : b.size = 0
      · have hnil : bytes = [] := List.length_eq_zero_iff.mp (hsize.symm.trans hzero)
        rw [sendLoop, if_pos hzero]
        exact ⟨_, bytes, rfl, h, rfl, fun _ => hnil, fun hleft => by cases hleft⟩
      · have hne : bytes ≠ [] := by
          rintro rfl
          exact hzero hsize
        rw [sendLoop, if_neg hzero]
        generalize hsz : (if maxSendSize < b.size then maxSendSize else b.size) = sz
        have hpos : 0 < sz := by
          rw [← hsz]
          split
          · exact hmax
          · exact Nat.pos_of_ne_zero hzero
        have hle : sz ≤ bytes.length := by
          rw [← hsz, ← hsize]
          split
          · next hlt => exact Nat.le_of_lt hlt
          · exact Nat.le_refl _
        obtain ⟨b', block, hpull, hholds, htake⟩ := h.pulldown hpos hle
        dsimp only
        rw [bind_of_ok hpull]
        cases result with
        | again =>
            exact ⟨_, bytes, rfl, hholds, rfl, (fun hempty => by cases hempty), fun _ => hne⟩
        | failed =>
            exact ⟨_, bytes, rfl, hholds, rfl, (fun hempty => by cases hempty), fun _ => hne⟩
        | zero =>
            obtain ⟨loop, rest, hloop, hrest, hsent, hempty, _⟩ := ih hholds
            refine ⟨{ loop with disconnects := loop.disconnects + 1 }, rest, ?_, hrest, hsent,
              hempty, fun _ => hne⟩
            dsimp only
            rw [bind_of_ok hloop]
        | accepted most =>
            have hmin : min (most + 1) sz ≤ sz := Nat.min_le_right _ _
            obtain ⟨-, hconsumed⟩ := @IOBuffer.Holds.consume b' bytes hholds (min (most + 1) sz)
              (by omega) (by omega)
            obtain ⟨loop, rest, hloop, hrest, hsent, hempty, _⟩ := ih hconsumed
            refine ⟨{ loop with sent := block.take (min (most + 1) sz) ++ loop.sent }, rest, ?_,
              hrest, ?_, hempty, fun _ => hne⟩
            · dsimp only
              rw [bind_of_ok hloop]
            · have hfront : block.take (min (most + 1) sz) = bytes.take (min (most + 1) sz) := by
                rw [← Nat.min_eq_left hmin, ← List.take_take, htake, List.take_take]
              show block.take (min (most + 1) sz) ++ loop.sent ++ rest = bytes
              rw [hfront, List.append_assoc, hsent, List.take_append_drop]

/-- What the callback has consumed and what is left are the bytes of the buffer and those that were
    delivered. -/
theorem receiveLoop_spec (recvs : List Recv) (h : b.Holds bytes) :
    ∃ rest, (receiveLoop b recvs).1.Holds rest ∧
      (receiveLoop b recvs).2.2.1 ++ rest = bytes ++ (receiveLoop b recvs).2.1 := by
  induction recvs generalizing b bytes with
  | nil => exact ⟨bytes, h, (List.append_nil _).symm⟩
  | cons recv recvs ih =>
      cases recv with
      | again => exact ⟨bytes, h, (List.append_nil _).symm⟩
      | failed => exact ⟨bytes, h, (List.append_nil _).symm⟩
      | closed => exact ⟨bytes, h, (List.append_nil _).symm⟩
      | bytes data consumed =>
          have hfull := h.append data
          rw [receiveLoop]
          dsimp only
          by_cases hn : (bytes ++ data).length < consumed ∨ (bytes ++ data).length = 0
          · rw [hfull.consume_false hn]
            obtain ⟨rest, hrest, hsame⟩ := ih hfull
            refine ⟨rest, hrest, ?_⟩
            rw [if_neg Bool.false_ne_true, List.nil_append, hsame, List.append_assoc]
          · obtain ⟨hdone, hdropped⟩ := @IOBuffer.Holds.consume _ _ hfull consumed (by omega)
              (by omega)
            obtain ⟨rest, hrest, hsame⟩ := ih hdropped
            refine ⟨rest, hrest, ?_⟩
            rw [if_pos hdone, hfull.blocks, List.append_assoc, hsame, ← List.append_assoc,
              List.take_append_drop, List.append_assoc]

end Loops

-- ============================================================================
-- Watching
-- ============================================================================

section Watching

variable {em : EventManager} {fd : Int} {type type' : EventType}

theorem watches_watchFd : (em.watchFd fd type).Watches fd type := by
  refine ⟨_, EventManager.watchFd_fds type, ?_⟩
  cases type <;> rfl

theorem EventManager.Watches.watchFd (h : em.Watches fd type') (type : EventType) :
    (em.watchFd fd type).Watches fd type' := by
  obtain ⟨w, hfds, hhas⟩ := h
  refine ⟨_, EventManager.watchFd_fds type, ?_⟩
  rw [hfds, Option.getD_some]
  cases type <;> cases type' <;> simp_all [Watch.set, Watch.has]

/-- Removing another type leaves this one. -/
theorem EventManager.Watches.removeFd (h : em.Watches fd type') (hne : type' ≠ type) :
    (em.removeFd fd type).Watches fd type' := by
  obtain ⟨w, hfds, hhas⟩ := h
  have hkeep : ¬ (w.size = 1 ∧ w.has type) := by
    obtain ⟨read, write, error⟩ := w
    cases type <;> cases type' <;> cases read <;> cases write <;> cases error <;>
      simp_all [Watch.size, Watch.has]
  refine ⟨w.set type false, ?_, ?_⟩
  · rw [EventManager.removeFd_fds, hfds, Option.bind_some, if_neg hkeep]
  · cases type <;> cases type' <;> simp_all [Watch.set, Watch.has]

/-- Without its three types a descriptor has no entry. -/
theorem removeFd_all (h : em.Filled fd) :
    (((em.removeFd fd .emRead).removeFd fd .emWrite).removeFd fd .emError).fds fd = none := by
  rw [EventManager.removeFd_fds, EventManager.removeFd_fds, EventManager.removeFd_fds]
  cases hfds : em.fds fd with
  | none => rfl
  | some w =>
      have hw := h w hfds
      obtain ⟨read, write, error⟩ := w
      cases read <;> cases write <;> cases error <;>
        simp_all [Watch.none, Watch.size, Watch.has, Watch.set]

/-- No call on the manager closes a descriptor. -/
theorem watchFd_ne_refused (h : em.kernel fd ≠ .refused) (type : EventType) :
    (em.watchFd fd type).kernel fd ≠ .refused := by
  rw [EventManager.watchFd_kernel]
  exact EventManager.epollCtl_ne_refused h

theorem removeFd_ne_refused (h : em.kernel fd ≠ .refused) (type : EventType) :
    (em.removeFd fd type).kernel fd ≠ .refused := by
  cases hfds : em.fds fd with
  | none =>
      rw [EventManager.removeFd, hfds]
      exact h
  | some w =>
      rw [EventManager.removeFd_kernel hfds]
      split
      · exact EventManager.epollCtl_ne_refused h
      · exact EventManager.epollCtl_ne_refused h

end Watching

section Calm

/-- The kernel refuses no `epoll_ctl` any more. -/
def EventManager.Calm (em : EventManager) : Prop := ∀ refused ∈ em.refusals, refused = false

variable {em : EventManager} {fd : Int}

theorem EventManager.Calm.refuses (h : em.Calm) : em.refuses = false := by
  rw [EventManager.refuses]
  cases hrefusals : em.refusals with
  | nil => rfl
  | cons refused refusals => exact h refused (by rw [hrefusals]; exact List.mem_cons_self ..)

theorem EventManager.Calm.watchFd (h : em.Calm) (fd : Int) (type : EventType) :
    (em.watchFd fd type).Calm := by
  intro refused hmem
  rw [EventManager.watchFd] at hmem
  split at hmem
  · exact h refused (List.mem_of_mem_tail hmem)
  · exact h refused (List.mem_of_mem_tail hmem)

theorem EventManager.Calm.removeFd (h : em.Calm) (fd : Int) (type : EventType) :
    (em.removeFd fd type).Calm := by
  intro refused hmem
  rw [EventManager.removeFd] at hmem
  split at hmem
  · exact h refused hmem
  · split at hmem
    · exact h refused (List.mem_of_mem_tail hmem)
    · exact h refused (List.mem_of_mem_tail hmem)

theorem EventManager.Calm.openFd (h : em.Calm) (fd : Int) : (em.openFd fd).Calm := by
  rw [EventManager.openFd]
  split
  · exact h
  · exact h

theorem EventManager.Calm.call (h : em.Calm) (c : EventManager.Call) : (em.call c).Calm := by
  cases c with
  | watchFd fd type => exact h.watchFd fd type
  | removeFd fd type => exact h.removeFd fd type
  | stop => exact h
  | openFd fd => exact h.openFd fd
  | close fd => exact h

end Calm

-- ============================================================================
-- What every call keeps
-- ============================================================================

/-- What the manager and the kernel have for the open descriptor `fd`.  The two agree where the
    kernel refuses nothing. -/
structure Open (calm : Prop) (fd : Int) (em : EventManager) : Prop where
  quiet : calm → em.Calm
  filled : em.Filled fd
  usable : em.kernel fd ≠ .refused
  mirror : calm → em.interest fd = (em.fds fd).map Watch.events

section Opened

variable {calm : Prop} {em : EventManager} {fd : Int}

theorem Open.watchFd (h : Open calm fd em) (type : EventType) :
    Open calm fd (em.watchFd fd type) where
  quiet := fun hcalm => (h.quiet hcalm).watchFd fd type
  filled := EventManager.filled_watchFd type
  usable := watchFd_ne_refused h.usable type
  mirror := fun hcalm =>
    ((EventManager.MirrorAt.watchFd_iff ⟨h.mirror hcalm, h.filled⟩ type).mpr
      (.inr ⟨(h.quiet hcalm).refuses, h.usable⟩)).1

theorem Open.removeFd (h : Open calm fd em) (type : EventType) :
    Open calm fd (em.removeFd fd type) where
  quiet := fun hcalm => (h.quiet hcalm).removeFd fd type
  filled := h.filled.removeFd type
  usable := removeFd_ne_refused h.usable type
  mirror := fun hcalm =>
    ((EventManager.MirrorAt.removeFd_iff ⟨h.mirror hcalm, h.filled⟩ type).mpr
      fun _ => (h.quiet hcalm).refuses).1

end Opened

/-- A socket that was made for the descriptor `fd`. -/
structure Good (calm : Prop) (fd : Int) (s : Sys) : Prop where
  max : 0 < s.socket.maxSendSize
  descriptor : s.socket.fd = fd ∨ s.socket.fd = -1
  opened : s.socket.fd = fd → Open calm fd s.em
  closed : s.socket.fd = -1 → s.em.fds fd = none ∧ s.em.kernel fd = .refused
  send : ∃ bytes, s.socket.sendBuffer.Holds bytes ∧ s.sent ++ bytes = s.written
  recv : ∃ bytes, s.socket.recvBuffer.Holds bytes ∧ s.consumed ++ bytes = s.received
  reads : s.socket.isStarted = true → s.socket.fd = fd → s.em.Watches fd .emRead
  writes : s.socket.isStarted = true → s.socket.fd = fd → s.socket.sendBuffer.size ≠ 0 →
    s.em.Watches fd .emWrite

section Calls

variable {calm : Prop} {fd : Int} {s : Sys}

theorem Good.fd_eq (h : Good calm fd s) (hpos : 0 < s.socket.fd) : s.socket.fd = fd := by
  rcases h.descriptor with hfd | hfd
  · exact hfd
  · omega

theorem Good.fd_eq_neg (h : Good calm fd s) (hfd : 0 < fd) (hneg : ¬ 0 < s.socket.fd) :
    s.socket.fd = -1 := by
  rcases h.descriptor with heq | heq
  · omega
  · exact heq

/-- The tasks and the disconnect callback do not matter. -/
theorem Good.congr (h : Good calm fd s) (tasks : List Task) (callback : Bool) :
    Good calm fd { s with tasks, socket := { s.socket with disconnectCallback := callback } } :=
  ⟨h.max, h.descriptor, h.opened, h.closed, h.send, h.recv, h.reads, h.writes⟩

theorem Good.enqueueDisconnect (h : Good calm fd s) : Good calm fd s.enqueueDisconnect := by
  rw [Sys.enqueueDisconnect]
  split
  · exact h.congr _ false
  · exact h

theorem Good.start (h : Good calm fd s) (hfd : 0 < fd) : Good calm fd s.start := by
  rw [Sys.start]
  split
  · exact h
  · dsimp only
    by_cases hpos : 0 < s.socket.fd
    · have heq := h.fd_eq hpos
      rw [if_pos hpos, heq]
      refine ⟨h.max, .inl rfl, fun _ => ((h.opened heq).watchFd .emRead).watchFd .emWrite, ?_,
        h.send, h.recv, fun _ _ => watches_watchFd.watchFd .emWrite,
        fun _ _ _ => watches_watchFd⟩
      intro hneg
      exact absurd hneg (by show fd ≠ -1; omega)
    · have hneg := h.fd_eq_neg hfd hpos
      rw [if_neg hpos]
      refine Good.enqueueDisconnect ⟨h.max, h.descriptor, h.opened, h.closed, h.send, h.recv,
        ?_, ?_⟩
      · intro _ heq
        exact absurd (heq.symm.trans hneg) (by omega)
      · intro _ heq
        exact absurd (heq.symm.trans hneg) (by omega)

theorem Good.write (h : Good calm fd s) (hfd : 0 < fd) (blocks : List (List UInt8)) :
    Good calm fd (s.write blocks) := by
  obtain ⟨bytes, hholds, hbytes⟩ := h.send
  have hsend : ∃ bytes, (s.socket.sendBuffer.appendBuffer (IOBuffer.ofBlocks blocks)).Holds bytes ∧
      s.sent ++ bytes = s.written ++ blocks.flatten := by
    refine ⟨bytes ++ blocks.flatten, hholds.appendBuffer ⟨rfl, rfl⟩, ?_⟩
    rw [← List.append_assoc, hbytes]
  rw [Sys.write]
  by_cases hwatch : 0 ≤ s.socket.fd ∧ s.socket.isStarted ∧ s.socket.sendBuffer.size = 0
  · have heq : s.socket.fd = fd := h.descriptor.resolve_right fun hneg => by omega
    rw [if_pos hwatch, heq]
    refine ⟨h.max, h.descriptor, fun hsame => (h.opened hsame).watchFd .emWrite, ?_, hsend, h.recv,
      fun hstarted hsame => (h.reads hstarted hsame).watchFd .emWrite,
      fun _ _ _ => watches_watchFd⟩
    intro hneg
    exact absurd hneg (by show s.socket.fd ≠ -1; omega)
  · rw [if_neg hwatch]
    refine ⟨h.max, h.descriptor, h.opened, h.closed, hsend, h.recv, h.reads, ?_⟩
    -- the buffer was not empty before: the descriptor is watched already
    intro hstarted hsame _
    have hsame' : s.socket.fd = fd := hsame
    exact h.writes hstarted hsame fun hzero => hwatch ⟨by omega, hstarted, hzero⟩

theorem Good.disconnect (h : Good calm fd s) : Good calm fd s.disconnect := by
  rw [Sys.disconnect]
  by_cases hpos : 0 < s.socket.fd
  · have heq := h.fd_eq hpos
    rw [if_pos hpos]
    dsimp only
    rw [heq]
    refine Good.enqueueDisconnect ⟨h.max, .inr rfl, ?_,
      fun _ => ⟨removeFd_all (h.opened heq).filled, Function.update_self _ _ _⟩, h.send, h.recv,
      ?_, ?_⟩
    · intro hsame
      exact absurd hsame (by show (-1 : Int) ≠ fd; omega)
    · intro _ hsame
      exact absurd hsame (by show (-1 : Int) ≠ fd; omega)
    · intro _ hsame
      exact absurd hsame (by show (-1 : Int) ≠ fd; omega)
  · rw [if_neg hpos]
    exact h

theorem Good.onReceive (h : Good calm fd s) (recvs : List Recv) :
    Good calm fd (s.onReceive recvs) := by
  rw [Sys.onReceive]
  split
  · obtain ⟨bytes, hholds, hbytes⟩ := h.recv
    obtain ⟨rest, hrest, hsame⟩ := receiveLoop_spec recvs hholds
    refine ⟨h.max, h.descriptor, h.opened, h.closed, h.send, ⟨rest, hrest, ?_⟩, h.reads, h.writes⟩
    show s.consumed ++ (receiveLoop s.socket.recvBuffer recvs).2.2.1 ++ rest
      = s.received ++ (receiveLoop s.socket.recvBuffer recvs).2.1
    rw [List.append_assoc, hsame, ← List.append_assoc, hbytes]
  · exact h

theorem Good.onCanSend (h : Good calm fd s) (sends : List Send) :
    ∃ s', s.onCanSend sends = .ok s' ∧ Good calm fd s' := by
  rw [Sys.onCanSend]
  by_cases hpos : 0 < s.socket.fd
  · have heq := h.fd_eq hpos
    obtain ⟨bytes, hholds, hbytes⟩ := h.send
    obtain ⟨loop, rest, hloop, hrest, hsent, hempty, hleft⟩ := sendLoop_ok h.max sends hholds
    rw [if_pos hpos, bind_of_ok hloop]
    refine ⟨_, rfl, ?_⟩
    have hstream : ∃ bytes, loop.buffer.Holds bytes ∧ s.sent ++ loop.sent ++ bytes = s.written :=
      ⟨rest, hrest, by rw [List.append_assoc, hsent, hbytes]⟩
    cases hemptied : loop.emptied with
    | true =>
        rw [if_pos rfl, heq]
        refine ⟨h.max, h.descriptor, fun hsame => (h.opened hsame).removeFd .emWrite, ?_, hstream,
          h.recv, ?_, ?_⟩
        · intro hneg
          exact absurd hneg (by show s.socket.fd ≠ -1; omega)
        · intro hstarted hsame
          exact (h.reads hstarted hsame).removeFd (by simp)
        · intro _ _ hsize
          rw [hempty hemptied] at hrest
          exact absurd hrest.size hsize
    | false =>
        rw [if_neg Bool.false_ne_true]
        refine ⟨h.max, h.descriptor, h.opened, h.closed, hstream, h.recv, h.reads, ?_⟩
        intro hstarted hsame _
        refine h.writes hstarted hsame fun hzero => hleft hemptied ?_
        exact List.length_eq_zero_iff.mp (hholds.size.symm.trans hzero)
  · rw [if_neg hpos]
    exact ⟨s, rfl, h⟩

end Calls

/-- A call of another user keeps off the descriptor. -/
def EventManager.Call.Apart (fd : Int) : EventManager.Call → Prop
  | .watchFd fd' _ => fd' ≠ fd
  | .removeFd fd' _ => fd' ≠ fd
  | .stop => False
  | .openFd fd' => fd' ≠ fd
  | .close fd' => fd' ≠ fd

def Event.Apart (fd : Int) : Event → Prop
  | .other c => c.Apart fd
  | _ => True

theorem call_of_apart {em : EventManager} {fd : Int} {c : EventManager.Call} (h : c.Apart fd) :
    (em.call c).fds fd = em.fds fd ∧ (em.call c).kernel fd = em.kernel fd := by
  cases c with
  | watchFd fd' type => exact EventManager.watchFd_of_ne (Ne.symm h) type
  | removeFd fd' type => exact EventManager.removeFd_of_ne (Ne.symm h) type
  | stop => exact h.elim
  | openFd fd' => exact ⟨congrFun EventManager.openFd_fds fd, EventManager.openFd_of_ne (Ne.symm h)⟩
  | close fd' => exact ⟨rfl, EventManager.close_of_ne (Ne.symm h)⟩

theorem Open.call {calm : Prop} {em : EventManager} {fd : Int} (h : Open calm fd em)
    {c : EventManager.Call} (hapart : c.Apart fd) : Open calm fd (em.call c) := by
  obtain ⟨hfds, hkernel⟩ := @call_of_apart em fd c hapart
  refine ⟨fun hcalm => (h.quiet hcalm).call c, ?_, ?_, fun hcalm => ?_⟩
  · rw [EventManager.Filled, hfds]
    exact h.filled
  · rw [hkernel]
    exact h.usable
  · rw [EventManager.interest, hfds, hkernel]
    exact h.mirror hcalm

theorem Good.step {calm : Prop} {fd : Int} {s : Sys} (h : Good calm fd s) (hfd : 0 < fd) (e : Event)
    (hapart : e.Apart fd) : ∃ s', s.step e = .ok s' ∧ Good calm fd s' := by
  cases e with
  | start => exact ⟨_, rfl, h.start hfd⟩
  | write blocks => exact ⟨_, rfl, h.write hfd blocks⟩
  | disconnect => exact ⟨_, rfl, h.disconnect⟩
  | setDisconnectCallback => exact ⟨_, rfl, h.congr s.tasks true⟩
  | onReceive recvs => exact ⟨_, rfl, h.onReceive recvs⟩
  | onCanSend sends => exact h.onCanSend sends
  | other c =>
      obtain ⟨hfds, hkernel⟩ := @call_of_apart s.em fd c hapart
      refine ⟨_, rfl, h.max, h.descriptor, fun hsame => (h.opened hsame).call hapart, ?_, h.send,
        h.recv, ?_, ?_⟩
      · intro hneg
        rw [hfds, hkernel]
        exact h.closed hneg
      · intro hstarted hsame
        rw [EventManager.Watches, hfds]
        exact h.reads hstarted hsame
      · intro hstarted hsame hsize
        rw [EventManager.Watches, hfds]
        exact h.writes hstarted hsame hsize

-- ============================================================================
-- Runs
-- ============================================================================

/-- A new socket. -/
def Sys.init (fd : Int) (maxSendSize : Nat) (em : EventManager) : Sys :=
  { socket := { fd, maxSendSize, isStarted := false, recvBuffer := .empty, sendBuffer := .empty
                disconnectCallback := false }
    em, tasks := [], written := [], sent := [], received := [], consumed := [] }

/-- On a descriptor that is open and that nobody watches. -/
theorem good_init {fd : Int} {maxSendSize : Nat} {em : EventManager} (hfd : 0 < fd)
    (hmax : 0 < maxSendSize) (hopen : em.kernel fd = .unwatched) (hnew : em.fds fd = none) :
    Good em.Calm fd (.init fd maxSendSize em) where
  max := hmax
  descriptor := .inl rfl
  opened := fun _ =>
    { quiet := id
      filled := fun w hw => by
        rw [show em.fds fd = some w from hw] at hnew
        cases hnew
      usable := fun hrefused => by
        rw [show em.kernel fd = .refused from hrefused] at hopen
        cases hopen
      mirror := fun _ => by
        show (em.kernel fd).interest = (em.fds fd).map Watch.events
        rw [hopen, hnew]
        rfl }
  closed := fun hneg => absurd hneg (by show fd ≠ -1; omega)
  send := ⟨[], IOBuffer.holds_empty, rfl⟩
  recv := ⟨[], IOBuffer.holds_empty, rfl⟩
  reads := fun hstarted => by cases hstarted
  writes := fun hstarted => by cases hstarted

/-- Any run of a socket.  What `send` has taken and what is in the buffer is what was written, in
    order; what the callback has consumed and what is in the buffer is what `recv` has delivered;
    an open socket that is started is in `_fds` for input, and for output as long as something is
    left to be sent, and the kernel watches what `_fds` has if it refuses no `epoll_ctl`; a closed
    one is not watched. -/
theorem tcpSocket_run (fd : Int) (maxSendSize : Nat) (em : EventManager) (events : List Event)
    (hfd : 0 < fd) (hmax : 0 < maxSendSize) (hopen : em.kernel fd = .unwatched)
    (hnew : em.fds fd = none) (hapart : ∀ e ∈ events, e.Apart fd) :
    ∃ s, runSteps Sys.step (.init fd maxSendSize em) events = .ok s ∧
      s.sent ++ s.socket.sendBuffer.blocks.flatten = s.written ∧
      s.consumed ++ s.socket.recvBuffer.blocks.flatten = s.received ∧
      (s.socket.isStarted = true → 0 < s.socket.fd → ∃ w : Watch,
        s.em.fds fd = some w ∧ w.read = true ∧
        (s.socket.sendBuffer.blocks.flatten ≠ [] → w.write = true) ∧
        (em.Calm → s.em.interest fd = some w.events)) ∧
      (s.socket.fd ≤ 0 → s.em.interest fd = none) := by
  have hkeeps : ∀ (s : Sys) (e : Event), Good em.Calm fd s → e.Apart fd →
      Ends (Good em.Calm fd) (fun _ => False) (s.step e) := by
    intro s e h he
    obtain ⟨s', hstep, h'⟩ := h.step hfd e he
    rw [hstep]
    exact h'
  obtain ⟨s, hrun, h⟩ := (runSteps_ends hkeeps (good_init hfd hmax hopen hnew)
    (alongRun_of_forall (fun e he _ => hapart e he) _)).exists_ok
  obtain ⟨bytes, hsend, hwritten⟩ := h.send
  obtain ⟨bytes', hrecv, hreceived⟩ := h.recv
  refine ⟨s, hrun, by rw [hsend.blocks, hwritten], by rw [hrecv.blocks, hreceived], ?_, ?_⟩
  · intro hstarted hpos
    have heq := h.fd_eq hpos
    obtain ⟨w, hfds, hread⟩ := h.reads hstarted heq
    refine ⟨w, hfds, hread, fun hleft => ?_, fun hcalm => ?_⟩
    · have hsize : s.socket.sendBuffer.size ≠ 0 := by
        rw [hsend.size, ← hsend.blocks]
        exact fun hzero => hleft (List.length_eq_zero_iff.mp hzero)
      obtain ⟨w', hfds', hwrite⟩ := h.writes hstarted heq hsize
      rw [hfds] at hfds'
      rw [Option.some.inj hfds']
      exact hwrite
    · rw [(h.opened heq).mirror hcalm, hfds, Option.map_some]
  · intro hclosed
    rw [EventManager.interest, (h.closed (h.fd_eq_neg hfd (by omega))).2]
    rfl

/-- Three bytes of which `send` takes two, and one more behind them; somebody else opens and watches
    another descriptor. -/
def shortRun : List Event :=
  [.write [[1, 2, 3]], .start, .onCanSend [.accepted 1, .again], .other (.openFd 6), .write [[4]],
    .other (.watchFd 6 .emRead), .onReceive [.bytes [7, 8] 1]]

/-- A manager in a process with the descriptor 5, whose `epoll_ctl` is never refused. -/
def shortManager : EventManager := .create 3 (fun fd => fd = 5) []

theorem tcpSocket_run_short :
    ∃ s, runSteps Sys.step (.init 5 4 shortManager) shortRun = .ok s ∧
      s.sent ++ s.socket.sendBuffer.blocks.flatten = s.written ∧
      s.consumed ++ s.socket.recvBuffer.blocks.flatten = s.received ∧
      (s.socket.isStarted = true → 0 < s.socket.fd → ∃ w : Watch,
        s.em.fds 5 = some w ∧ w.read = true ∧
        (s.socket.sendBuffer.blocks.flatten ≠ [] → w.write = true) ∧
        s.em.interest 5 = some w.events) ∧
      (s.socket.fd ≤ 0 → s.em.interest 5 = none) := by
  have hcalm : shortManager.Calm := fun _ h => by cases h
  obtain ⟨s, hrun, hsent, hconsumed, hopen, hclosed⟩ :=
    tcpSocket_run 5 4 shortManager shortRun (by decide) (by decide) rfl rfl
      (by simp [shortRun, Event.Apart, EventManager.Call.Apart])
  refine ⟨s, hrun, hsent, hconsumed, fun hstarted hpos => ?_, hclosed⟩
  obtain ⟨w, hfds, hread, hwrite, hinterest⟩ := hopen hstarted hpos
  exact ⟨w, hfds, hread, hwrite, hinterest hcalm⟩

end LinuxCodeDemos.ThreadPool

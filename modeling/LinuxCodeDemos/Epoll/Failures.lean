/-
  LinuxCodeDemos.Epoll.Failures

  The epoll bookkeeping when `epoll_ctl` fails.

  `epollSetEvents` writes `epoll_state` before the call and counts after it, whatever the
  call returns.  From a state in which the bookkeeping and the kernel agree, a call that
  succeeds keeps them in agreement (`setEvents_mirror`) and a call that fails ends it at once
  (`setEvents_failed`), so they agree all along a run exactly if no call of it fails
  (`consistent_iff`).
-/

import LinuxCodeDemos.Epoll.Mirror

namespace LinuxCodeDemos.Epoll

open Lib
open Function (update)

variable {H D : Type}

-- ============================================================================
-- Definitions
-- ============================================================================

/-- A call of `epollSetEvents`; `ok` is whether anything but the interest list makes its
    `epoll_ctl` fail. -/
structure SetEvents where
  fd : Nat
  needRead : Bool
  needWrite : Bool
  ok : Bool
  deriving DecidableEq, Repr

/-- `ev.events` of the call. -/
def SetEvents.events (e : SetEvents) : UInt32 := wantedEvents e.needRead e.needWrite

/-- The kernel adds what is absent (else EEXIST), changes and deletes what is present (else
    ENOENT). -/
def ctlPossible (mask : Option UInt32) : CtlType → Bool
  | .add => mask.isNone
  | .mod => mask.isSome
  | .del => mask.isSome

/-- One call. -/
def setEvents (c : Comm H D) (e : SetEvents) : Comm H D :=
  epollSetEvents (e.ok && ctlPossible (c.interest e.fd) (ctlType e.events (c.epollState e.fd)))
    e.fd e.needRead e.needWrite c

/-- How many descriptors are on the interest list. -/
def onList (n : Nat) (interest : Nat → Option UInt32) : Nat :=
  (List.range n).countP fun fd => (interest fd).isSome

/-- `epoll_state` is what the kernel holds, and `epoll_fds` counts its descriptors. -/
def Consistent (c : Comm H D) : Prop :=
  (∀ fd, c.epollState fd = (c.interest fd).getD 0) ∧ c.epollFds = onList c.biggestFd c.interest

/-- `epoll_ctl` is not called, or nothing makes it fail. -/
def CtlOk (c : Comm H D) (e : SetEvents) : Prop := e.events = c.epollState e.fd ∨ e.ok = true

instance (c : Comm H D) (e : SetEvents) : Decidable (CtlOk c e) := inferInstanceAs (Decidable (_ ∨ _))

-- ============================================================================
-- One call
-- ============================================================================

theorem Mirror.consistent {c : Comm H D} (h : Mirror c) : Consistent c := by
  refine ⟨h.state_eq, ?_⟩
  rw [h.fds_eq, registered, onList]
  congr 1
  apply List.countP_congr
  intro fd _
  rw [decide_eq_true_iff, h.isSome_iff]

/-- While the bookkeeping agrees with the kernel, the inferred operation is possible. -/
theorem Mirror.ctlPossible {c : Comm H D} (h : Mirror c) {fd : Nat} {events : UInt32}
    (hne : events ≠ c.epollState fd) :
    ctlPossible (c.interest fd) (ctlType events (c.epollState fd)) = true := by
  have hsome := h.isSome_iff fd
  rcases ctlType_cases hne with ⟨htype, _, hold⟩ | ⟨htype, _, hold⟩ | ⟨htype, _, hold⟩
  · rw [htype]
    exact hsome.mpr hold
  · rw [htype]
    exact hsome.mpr hold
  · rw [htype]
    show (c.interest fd).isNone = true
    rw [Option.isNone_iff_eq_none, ← Option.not_isSome_iff_eq_none, hsome]
    exact not_not.mpr hold

/-- Without a change of the events nothing is done. -/
theorem setEvents_same {c : Comm H D} {e : SetEvents} (h : e.events = c.epollState e.fd) :
    setEvents c e = c := by
  rw [setEvents, epollSetEvents]
  exact if_neg (not_not.mpr h)

/-- A call that succeeds keeps the agreement. -/
theorem setEvents_mirror {c : Comm H D} {e : SetEvents} (h : Mirror c)
    (hfd : e.fd < c.biggestFd) (hok : CtlOk c e) : Mirror (setEvents c e) := by
  by_cases hsame : e.events = c.epollState e.fd
  · rw [setEvents_same hsame]
    exact h
  · rcases hok with heq | hok
    · exact absurd heq hsame
    · rw [setEvents, hok, h.ctlPossible hsame]
      exact h.epollSetEvents hfd e.needRead e.needWrite

/-- After a call that fails, `epoll_state` holds events that the kernel does not. -/
theorem setEvents_failed {c : Comm H D} {e : SetEvents} (h : Mirror c) (hfail : ¬ CtlOk c e) :
    ¬ Consistent (setEvents c e) := by
  obtain ⟨hne, hok⟩ := not_or.mp hfail
  rw [Bool.not_eq_true] at hok
  have hstate := epollState_epollSetEvents c false e.fd e.needRead e.needWrite
  have hinterest : (epollSetEvents false e.fd e.needRead e.needWrite c).interest = c.interest := by
    rw [epollSetEvents]
    split <;> rfl
  rw [setEvents, hok, Bool.false_and]
  rintro ⟨heq, _⟩
  have hfd := heq e.fd
  rw [hstate, hinterest, ← h.state_eq] at hfd
  exact hne hfd

-- ============================================================================
-- Runs
-- ============================================================================

theorem biggestFd_setEvents (c : Comm H D) (e : SetEvents) :
    (setEvents c e).biggestFd = c.biggestFd := biggestFd_epollSetEvents ..

/-- One call, as a step of a run. -/
def setEventsStep (c : Comm H D) (e : SetEvents) : Except Trap (Comm H D) := do
  checkFd e.fd c
  .ok (setEvents c e)

theorem setEventsStep_ok {c : Comm H D} {e : SetEvents} (h : e.fd < c.biggestFd) :
    setEventsStep c e = .ok (setEvents c e) := by
  rw [setEventsStep, checkFd, if_pos h]
  rfl

/-- After every call of a sequence on descriptors of the table, `epoll_state` is what the
    kernel holds and `epoll_fds` counts its descriptors, exactly if no `epoll_ctl` of the
    sequence fails. -/
theorem consistent_iff (maxFd : Nat) (isOpen : Nat → Bool) (clock : Int) (calls : List SetEvents)
    (hfd : ∀ e ∈ calls, e.fd < (commInit maxFd isOpen clock : Comm H D).biggestFd) :
    AlongRun setEventsStep (fun c e => Consistent (setEvents c e))
        (commInit maxFd isOpen clock : Comm H D) calls
      ↔ AlongRun setEventsStep CtlOk (commInit maxFd isOpen clock : Comm H D) calls := by
  have hsame : ∀ (c : Comm H D) (e : SetEvents),
      (Mirror c ∧ c.biggestFd = (commInit maxFd isOpen clock : Comm H D).biggestFd) →
      e.fd < (commInit maxFd isOpen clock : Comm H D).biggestFd →
      (Consistent (setEvents c e) ↔ CtlOk c e) := by
    rintro c e ⟨hmirror, hsize⟩ hlt
    rw [← hsize] at hlt
    refine ⟨?_, ?_⟩
    · intro hcons
      by_contra hfail
      exact setEvents_failed hmirror hfail hcons
    · intro hok
      exact (setEvents_mirror hmirror hlt hok).consistent
  refine alongRun_congr hsame ?_ ⟨commInit_mirror maxFd isOpen clock, rfl⟩ hfd
  rintro c e c' ⟨hmirror, hsize⟩ hlt hok hstep
  rw [← hsize] at hlt
  rw [setEventsStep_ok hlt] at hstep
  cases hstep
  exact ⟨setEvents_mirror hmirror hlt hok, (biggestFd_setEvents c e).trans hsize⟩

/-- A descriptor is added, changed and deleted. -/
theorem consistent_three_calls :
    AlongRun setEventsStep (fun c e => Consistent (setEvents c e))
      (commInit 8 (fun _ => true) 0 : Comm Unit Unit)
      [⟨5, true, false, true⟩, ⟨5, false, true, true⟩, ⟨5, false, false, true⟩] :=
  (consistent_iff 8 (fun _ => true) 0 _ (by decide)).mpr (by decide)

/-- The ADD of a descriptor fails: the bookkeeping has it, the kernel does not. -/
theorem inconsistent_failed_add :
    ¬ AlongRun setEventsStep (fun c e => Consistent (setEvents c e))
      (commInit 8 (fun _ => true) 0 : Comm Unit Unit) [⟨5, true, false, false⟩] := by
  rintro ⟨⟨hstate, _⟩, _⟩
  exact absurd (hstate 5) (by decide)

end LinuxCodeDemos.Epoll

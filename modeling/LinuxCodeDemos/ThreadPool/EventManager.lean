/-
  LinuxCodeDemos.ThreadPool.EventManager

  `watchFd`, `removeFd`, `stop` and `epollUpdate` of `eventmanager.cc`, with the descriptors of the
  process as the kernel has them.

  - `_fds` has an entry for every descriptor that is watched, with the event types of its inner map.
  - `epoll_ctl` fails on a descriptor that is not open (`EBADF`) or that cannot be watched
    (`EPERM`), `EPOLL_CTL_ADD` on one that is in the interest list (`EEXIST`), `EPOLL_CTL_MOD` and
    `EPOLL_CTL_DEL` on one that is not (`ENOENT`); and any call may be refused for want of memory
    or because the user has too many watches (`ENOMEM`, `ENOSPC`).  `epollUpdate` reports a
    failure, and `_fds` keeps what it was told before.
  - The kernel takes a descriptor off the list when it is closed; `_fds` is not told.  No descriptor
    is duplicated, by `dup` or `fork`: the last one to be closed would count.
  - `stop` forgets all entries and leaves the list as it is.  From a worker thread it does nothing.
  - The eventfd of the manager is in the list and not in `_fds`.

  The list is that of `_fds` in every state exactly if no call goes wrong in one of these ways
  (`eventManager_mirror_iff`).
-/

import Mathlib.Logic.Function.Basic
import LinuxCodeDemos.Lib.Run

namespace LinuxCodeDemos.ThreadPool

open Lib

/-- `EventManager::EventType`. -/
inductive EventType where
  | emRead
  | emWrite
  | emError
  deriving DecidableEq, Repr

/-- The keys of an inner map of `_fds`. -/
structure Watch where
  read : Bool
  write : Bool
  error : Bool
  deriving DecidableEq, Repr

namespace Watch

def none : Watch := { read := false, write := false, error := false }

/-- `find(type) != end()`. -/
def has (w : Watch) : EventType → Bool
  | .emRead => w.read
  | .emWrite => w.write
  | .emError => w.error

/-- `[type] = f`, or `erase(type)`. -/
def set (w : Watch) (type : EventType) (present : Bool) : Watch :=
  match type with
  | .emRead => { w with read := present }
  | .emWrite => { w with write := present }
  | .emError => { w with error := present }

/-- `size()`. -/
def size (w : Watch) : Nat := w.read.toNat + w.write.toNat + w.error.toNat

@[simp] theorem has_set (w : Watch) (type : EventType) (present : Bool) :
    (w.set type present).has type = present := by
  cases type <;> rfl

/-- Nothing changes where the type is there, or not there, already. -/
theorem set_has {w : Watch} {type : EventType} {present : Bool} (h : w.has type = present) :
    w.set type present = w := by
  subst h
  cases type <;> rfl

end Watch

/-- The bits of `ev.events`; `EPOLLRDHUP` and `EPOLLHUP` come together. -/
structure Events where
  epollin : Bool
  epollout : Bool
  epollhup : Bool
  deriving DecidableEq, Repr

/-- The mask that `epollUpdate` collects. -/
def Watch.events (w : Watch) : Events :=
  { epollin := w.read, epollout := w.write, epollhup := w.error }

/-- A descriptor number as `epoll_ctl` finds it. -/
inductive Descriptor where
  /-- Not open, or not one that can be watched: a regular file, or `_epoll_fd` itself. -/
  | refused
  /-- Not in the interest list. -/
  | unwatched
  | watched (events : Events)
  deriving DecidableEq, Repr

/-- What the interest list has for it. -/
def Descriptor.interest : Descriptor → Option Events
  | .watched events => some events
  | _ => none

/-- `_fds` and `_event_fd`, the descriptors of the process, and which of the next calls of
    `epoll_ctl` the kernel refuses whatever the descriptor is; behind the listed ones it refuses
    none. -/
structure EventManager where
  fds : Int → Option Watch
  eventFd : Int
  kernel : Int → Descriptor
  refusals : List Bool

inductive EpollOp where
  | add
  | mod
  | del
  deriving DecidableEq, Repr

namespace EventManager

/-- The constructor: of the descriptors that are open and can be watched, the list has the
    eventfd. -/
def create (eventFd : Int) (opened : Int → Bool) (refusals : List Bool) : EventManager :=
  { fds := fun _ => none
    eventFd
    kernel := fun fd =>
      if fd = eventFd then .watched { epollin := true, epollout := false, epollhup := false }
      else if opened fd then .unwatched
      else .refused
    refusals }

/-- The interest list. -/
def interest (em : EventManager) (fd : Int) : Option Events := (em.kernel fd).interest

/-- The kernel refuses the next `epoll_ctl`. -/
def refuses (em : EventManager) : Bool := em.refusals.headD false

/-- `epoll_ctl`; a call that fails changes nothing. -/
def epollCtl (refused : Bool) (op : EpollOp) (events : Events) (descriptor : Descriptor) :
    Descriptor :=
  if refused then descriptor
  else
    match op, descriptor with
    | .add, .unwatched => .watched events
    | .mod, .watched _ => .watched events
    | .del, .watched _ => .unwatched
    | _, _ => descriptor

/-- `epollUpdate`. -/
def epollUpdate (em : EventManager) (fd : Int) (op : EpollOp) : EventManager :=
  { em with
    kernel := Function.update em.kernel fd
      (epollCtl em.refuses op ((em.fds fd).getD .none).events (em.kernel fd))
    refusals := em.refusals.tail }

/-- `watchFd`. -/
def watchFd (em : EventManager) (fd : Int) (type : EventType) : EventManager :=
  match em.fds fd with
  | none =>
      epollUpdate { em with fds := Function.update em.fds fd (some (Watch.none.set type true)) }
        fd .add
  | some w =>
      epollUpdate { em with fds := Function.update em.fds fd (some (w.set type true)) } fd .mod

/-- `removeFd`. -/
def removeFd (em : EventManager) (fd : Int) (type : EventType) : EventManager :=
  match em.fds fd with
  | none => em
  | some w =>
      if w.size = 1 ∧ w.has type then
        let em := epollUpdate em fd .del
        { em with fds := Function.update em.fds fd none }
      else
        epollUpdate { em with fds := Function.update em.fds fd (some (w.set type false)) } fd .mod

/-- `stop`, of `_fds`. -/
def stop (em : EventManager) : EventManager := { em with fds := fun _ => none }

/-- A descriptor that can be watched gets this number, if it is free. -/
def openFd (em : EventManager) (fd : Int) : EventManager :=
  if em.kernel fd = .refused then { em with kernel := Function.update em.kernel fd .unwatched }
  else em

/-- `close(fd)` by the owner of a descriptor. -/
def close (em : EventManager) (fd : Int) : EventManager :=
  { em with kernel := Function.update em.kernel fd .refused }

-- ============================================================================
-- What the calls do
-- ============================================================================

/-- `_fds` has the type for the descriptor. -/
def Watches (em : EventManager) (fd : Int) (type : EventType) : Prop :=
  ∃ w, em.fds fd = some w ∧ w.has type = true

/-- `_fds` has no empty inner map for the descriptor. -/
def Filled (em : EventManager) (fd : Int) : Prop := ∀ w, em.fds fd = some w → w ≠ .none

section Operations

variable {em : EventManager} {fd fd' : Int}

theorem set_true_ne_none (w : Watch) (type : EventType) : w.set type true ≠ .none := by
  cases type <;> simp [Watch.set, Watch.none]

/-- A type is left behind where `removeFd` keeps the entry. -/
theorem set_false_ne_none {w : Watch} {type : EventType} (hw : w ≠ .none)
    (hkeep : ¬ (w.size = 1 ∧ w.has type)) : w.set type false ≠ .none := by
  obtain ⟨read, write, error⟩ := w
  cases type <;> cases read <;> cases write <;> cases error <;>
    simp_all [Watch.set, Watch.none, Watch.size, Watch.has]

section Ctl

variable {refused : Bool} {op : EpollOp} {events old : Events} {descriptor : Descriptor}

theorem epollCtl_refused : epollCtl true op events descriptor = descriptor := if_pos rfl

theorem epollCtl_add : epollCtl false .add events .unwatched = .watched events := rfl

theorem epollCtl_mod : epollCtl false .mod events (.watched old) = .watched events := rfl

theorem epollCtl_del : epollCtl false .del events (.watched old) = .unwatched := rfl

/-- No `epoll_ctl` helps where the descriptor is not open. -/
theorem epollCtl_of_refused : epollCtl refused op events .refused = .refused := by
  cases refused <;> cases op <;> rfl

/-- And none closes it. -/
theorem epollCtl_ne_refused (h : descriptor ≠ .refused) :
    epollCtl refused op events descriptor ≠ .refused := by
  cases refused <;> cases op <;> cases descriptor <;> simp_all [epollCtl]

end Ctl

@[simp] theorem epollUpdate_fds (op : EpollOp) : (em.epollUpdate fd op).fds = em.fds := rfl

theorem epollUpdate_of_ne (hne : fd' ≠ fd) (op : EpollOp) :
    (em.epollUpdate fd op).kernel fd' = em.kernel fd' := Function.update_of_ne hne _ _

theorem epollUpdate_self (op : EpollOp) :
    (em.epollUpdate fd op).kernel fd
      = epollCtl em.refuses op ((em.fds fd).getD .none).events (em.kernel fd) :=
  Function.update_self _ _ _

/-- Calls for one descriptor leave the others alone. -/
theorem watchFd_of_ne (hne : fd' ≠ fd) (type : EventType) :
    (em.watchFd fd type).fds fd' = em.fds fd' ∧
      (em.watchFd fd type).kernel fd' = em.kernel fd' := by
  rw [watchFd]
  split
  · exact ⟨Function.update_of_ne hne _ _, epollUpdate_of_ne hne _⟩
  · exact ⟨Function.update_of_ne hne _ _, epollUpdate_of_ne hne _⟩

theorem removeFd_of_ne (hne : fd' ≠ fd) (type : EventType) :
    (em.removeFd fd type).fds fd' = em.fds fd' ∧
      (em.removeFd fd type).kernel fd' = em.kernel fd' := by
  rw [removeFd]
  split
  · exact ⟨rfl, rfl⟩
  · split
    · exact ⟨Function.update_of_ne hne _ _, epollUpdate_of_ne hne _⟩
    · exact ⟨Function.update_of_ne hne _ _, epollUpdate_of_ne hne _⟩

theorem openFd_of_ne (hne : fd' ≠ fd) : (em.openFd fd).kernel fd' = em.kernel fd' := by
  rw [openFd]
  split
  · exact Function.update_of_ne hne _ _
  · rfl

theorem close_of_ne (hne : fd' ≠ fd) : (em.close fd).kernel fd' = em.kernel fd' :=
  Function.update_of_ne hne _ _

@[simp] theorem openFd_fds : (em.openFd fd).fds = em.fds := by
  rw [openFd]
  split <;> rfl

/-- What `watchFd` leaves in `_fds`. -/
theorem watchFd_fds (type : EventType) :
    (em.watchFd fd type).fds fd = some (((em.fds fd).getD .none).set type true) := by
  rw [watchFd]
  split
  · next hfds =>
      rw [epollUpdate_fds, hfds]
      exact Function.update_self _ _ _
  · next w hfds =>
      rw [epollUpdate_fds, hfds]
      exact Function.update_self _ _ _

/-- What `watchFd` asks of the kernel. -/
theorem watchFd_kernel (type : EventType) :
    (em.watchFd fd type).kernel fd
      = epollCtl em.refuses (if em.fds fd = none then .add else .mod)
          (((em.fds fd).getD .none).set type true).events (em.kernel fd) := by
  rw [watchFd]
  split
  · next hfds =>
      rw [epollUpdate_self, hfds, if_pos rfl]
      show epollCtl em.refuses .add ((Function.update em.fds fd _ fd).getD .none).events _ = _
      rw [Function.update_self]
      rfl
  · next w hfds =>
      rw [epollUpdate_self, hfds, if_neg (Option.some_ne_none w)]
      show epollCtl em.refuses .mod ((Function.update em.fds fd _ fd).getD .none).events _ = _
      rw [Function.update_self]
      rfl

/-- What `removeFd` leaves in `_fds`. -/
theorem removeFd_fds (type : EventType) :
    (em.removeFd fd type).fds fd =
      (em.fds fd).bind fun w =>
        if w.size = 1 ∧ w.has type then none else some (w.set type false) := by
  rw [removeFd]
  split
  · next hfds => rw [hfds, Option.bind_none]
  · next w hfds =>
      rw [hfds, Option.bind_some]
      by_cases hlast : w.size = 1 ∧ w.has type
      · rw [if_pos hlast, if_pos hlast]
        exact Function.update_self _ _ _
      · rw [if_neg hlast, if_neg hlast]
        exact Function.update_self _ _ _

/-- What `removeFd` asks of the kernel where there is an entry. -/
theorem removeFd_kernel {w : Watch} (hfds : em.fds fd = some w) (type : EventType) :
    (em.removeFd fd type).kernel fd
      = if w.size = 1 ∧ w.has type then epollCtl em.refuses .del w.events (em.kernel fd)
        else epollCtl em.refuses .mod (w.set type false).events (em.kernel fd) := by
  simp only [removeFd, hfds]
  split
  · show (em.epollUpdate fd .del).kernel fd = _
    rw [epollUpdate_self, hfds]
    rfl
  · rw [epollUpdate_self]
    show epollCtl em.refuses .mod ((Function.update em.fds fd _ fd).getD .none).events _ = _
    rw [Function.update_self]
    rfl

theorem filled_watchFd (type : EventType) : (em.watchFd fd type).Filled fd := by
  intro w hw
  rw [watchFd_fds] at hw
  rw [← Option.some.inj hw]
  exact set_true_ne_none _ type

theorem Filled.removeFd (h : em.Filled fd) (type : EventType) :
    (em.removeFd fd type).Filled fd := by
  intro w hw
  rw [removeFd_fds] at hw
  obtain ⟨w', hfds, hkeep⟩ := Option.bind_eq_some_iff.mp hw
  by_cases hlast : w'.size = 1 ∧ w'.has type
  · rw [if_pos hlast] at hkeep
    cases hkeep
  · rw [if_neg hlast] at hkeep
    rw [← Option.some.inj hkeep]
    exact set_false_ne_none (h w' hfds) hlast

end Operations

-- ============================================================================
-- The mirror
-- ============================================================================

/-- What `_fds` and the interest list say of one descriptor. -/
def MirrorAt (em : EventManager) (fd : Int) : Prop :=
  em.interest fd = (em.fds fd).map Watch.events ∧ em.Filled fd

/-- The kernel watches what `_fds` has, and `_fds` has no empty inner map; the eventfd apart. -/
def Mirror (em : EventManager) : Prop := ∀ fd, fd ≠ em.eventFd → em.MirrorAt fd

section Mirrors

variable {em em' : EventManager} {fd fd' : Int}

theorem MirrorAt.congr (h : em.MirrorAt fd) (hfds : em'.fds fd = em.fds fd)
    (hkernel : em'.kernel fd = em.kernel fd) : em'.MirrorAt fd := by
  rw [MirrorAt, interest, Filled, hfds, hkernel]
  exact h

/-- Only the descriptor of a call matters. -/
theorem Mirror.iff_at (h : em.Mirror) (hevent : em'.eventFd = em.eventFd)
    (hothers : ∀ fd', fd' ≠ fd → em'.fds fd' = em.fds fd' ∧ em'.kernel fd' = em.kernel fd') :
    em'.Mirror ↔ fd = em.eventFd ∨ em'.MirrorAt fd := by
  refine ⟨fun h' => or_iff_not_imp_left.mpr fun hne => h' fd (hevent ▸ hne), fun h' fd' hfd' => ?_⟩
  rw [hevent] at hfd'
  by_cases hsame : fd' = fd
  · rw [hsame]
    exact h'.resolve_left (hsame ▸ hfd')
  · exact (h fd' hfd').congr (hothers fd' hsame).1 (hothers fd' hsame).2

theorem MirrorAt.kernel_some (h : em.MirrorAt fd) {w : Watch} (hfds : em.fds fd = some w) :
    em.kernel fd = .watched w.events := by
  have hinterest := h.1
  rw [hfds, Option.map_some, interest] at hinterest
  cases hkernel : em.kernel fd with
  | refused => simp [hkernel, Descriptor.interest] at hinterest
  | unwatched => simp [hkernel, Descriptor.interest] at hinterest
  | watched events =>
      rw [hkernel] at hinterest
      exact congrArg _ (Option.some.inj hinterest)

theorem MirrorAt.kernel_none (h : em.MirrorAt fd) (hfds : em.fds fd = none) :
    em.kernel fd = .refused ∨ em.kernel fd = .unwatched := by
  have hinterest := h.1
  rw [hfds, Option.map_none, interest] at hinterest
  cases hkernel : em.kernel fd with
  | refused => exact .inl rfl
  | unwatched => exact .inr rfl
  | watched events => simp [hkernel, Descriptor.interest] at hinterest

theorem not_watches_of_none {type : EventType} (hfds : em.fds fd = none) :
    ¬ em.Watches fd type := by
  rintro ⟨w, hw, -⟩
  rw [hfds] at hw
  cases hw

theorem watches_iff {w : Watch} {type : EventType} (hfds : em.fds fd = some w) :
    em.Watches fd type ↔ w.has type = true := by
  rw [Watches, hfds]
  exact ⟨fun ⟨_, hw, hhas⟩ => Option.some.inj hw ▸ hhas, fun hhas => ⟨w, rfl, hhas⟩⟩

/-- The masks differ where the types do. -/
theorem events_injective : Function.Injective Watch.events := by
  intro w w' h
  obtain ⟨read, write, error⟩ := w
  simp only [Watch.events, Events.mk.injEq] at h
  obtain ⟨rfl, rfl, rfl⟩ := h
  rfl

theorem set_eq_iff {w : Watch} {type : EventType} {present : Bool} :
    w.set type present = w ↔ w.has type = present :=
  ⟨fun h => by rw [← h, Watch.has_set], Watch.set_has⟩

/-- `watchFd` keeps the mirror if there is nothing to change, or if nothing hinders `epoll_ctl`. -/
theorem MirrorAt.watchFd_iff (h : em.MirrorAt fd) (type : EventType) :
    (em.watchFd fd type).MirrorAt fd ↔
      em.Watches fd type ∨ (em.refuses = false ∧ em.kernel fd ≠ .refused) := by
  have hfilled : (em.watchFd fd type).Filled fd := filled_watchFd type
  rw [MirrorAt, and_iff_left hfilled, interest, watchFd_fds, watchFd_kernel, Option.map_some]
  cases hfds : em.fds fd with
  | none =>
      rw [if_pos rfl, Option.getD_none, or_iff_right (not_watches_of_none hfds)]
      rcases h.kernel_none hfds with hkernel | hkernel
      · rw [hkernel, epollCtl_of_refused]
        exact iff_of_false (fun hnone => by cases hnone) fun hopen => hopen.2 rfl
      · rw [hkernel]
        cases em.refuses with
        | true =>
            rw [epollCtl_refused]
            exact iff_of_false (fun hnone => by cases hnone) fun hopen => by cases hopen.1
        | false =>
            rw [epollCtl_add]
            exact iff_of_true rfl ⟨rfl, fun hopen => by cases hopen⟩
  | some w =>
      rw [if_neg (Option.some_ne_none w), Option.getD_some, h.kernel_some hfds, watches_iff hfds]
      cases em.refuses with
      | true =>
          rw [epollCtl_refused, Descriptor.interest, Option.some.injEq, events_injective.eq_iff,
            eq_comm, set_eq_iff]
          exact ⟨.inl, fun hor => hor.resolve_right fun hfalse => by cases hfalse.1⟩
      | false =>
          rw [epollCtl_mod]
          exact iff_of_true rfl (.inr ⟨rfl, fun hkernel => by cases hkernel⟩)

/-- `removeFd` keeps it if the type is not there, or if `epoll_ctl` is not refused. -/
theorem MirrorAt.removeFd_iff (h : em.MirrorAt fd) (type : EventType) :
    (em.removeFd fd type).MirrorAt fd ↔ (em.Watches fd type → em.refuses = false) := by
  have hfilled : (em.removeFd fd type).Filled fd := h.2.removeFd type
  cases hfds : em.fds fd with
  | none =>
      have hsame : em.removeFd fd type = em := by simp only [removeFd, hfds]
      rw [hsame]
      exact iff_of_true h fun hwatches => absurd hwatches (not_watches_of_none hfds)
  | some w =>
      rw [MirrorAt, and_iff_left hfilled, interest, removeFd_fds, removeFd_kernel hfds, hfds,
        Option.bind_some, h.kernel_some hfds, watches_iff hfds]
      by_cases hlast : w.size = 1 ∧ w.has type
      · rw [if_pos hlast, if_pos hlast, Option.map_none]
        cases em.refuses with
        | true =>
            rw [epollCtl_refused]
            exact iff_of_false (Option.some_ne_none _) fun himp => by cases himp hlast.2
        | false =>
            rw [epollCtl_del]
            exact iff_of_true rfl fun _ => rfl
      · rw [if_neg hlast, if_neg hlast, Option.map_some]
        cases em.refuses with
        | true =>
            rw [epollCtl_refused, Descriptor.interest, Option.some.injEq, events_injective.eq_iff,
              eq_comm, set_eq_iff]
            cases w.has type <;> simp
        | false =>
            rw [epollCtl_mod]
            exact iff_of_true rfl fun _ => rfl

/-- Only a descriptor without an entry may be closed. -/
theorem MirrorAt.close_iff (h : em.MirrorAt fd) :
    (em.close fd).MirrorAt fd ↔ em.fds fd = none := by
  have hfilled : (em.close fd).Filled fd := h.2
  rw [MirrorAt, and_iff_left hfilled, interest]
  show (Function.update em.kernel fd .refused fd).interest = (em.fds fd).map Watch.events ↔ _
  rw [Function.update_self]
  exact eq_comm.trans Option.map_eq_none_iff

/-- A new descriptor is not watched. -/
theorem MirrorAt.openFd (h : em.MirrorAt fd) : (em.openFd fd).MirrorAt fd := by
  refine ⟨?_, fun w hw => h.2 w (by rwa [openFd_fds] at hw)⟩
  rw [openFd_fds, ← h.1, interest, EventManager.openFd]
  split
  · next hclosed =>
      rw [interest, hclosed]
      show (Function.update em.kernel fd .unwatched fd).interest = none
      rw [Function.update_self]
      rfl
  · rfl

/-- `stop` keeps the mirror where there is no entry to forget. -/
theorem Mirror.stop_iff (h : em.Mirror) :
    em.stop.Mirror ↔ ∀ fd, fd ≠ em.eventFd → em.fds fd = none := by
  refine ⟨fun hstop fd hfd => ?_, fun hnone fd hfd => ?_⟩
  · have hinterest : em.interest fd = none := (hstop fd hfd).1
    rw [(h fd hfd).1] at hinterest
    exact Option.map_eq_none_iff.mp hinterest
  · exact (h fd hfd).congr (hnone fd hfd).symm rfl

end Mirrors

-- ============================================================================
-- Any sequence of calls
-- ============================================================================

/-- The calls on the manager, and what the process does with its descriptors. -/
inductive Call where
  | watchFd (fd : Int) (type : EventType)
  | removeFd (fd : Int) (type : EventType)
  | stop
  | openFd (fd : Int)
  | close (fd : Int)
  deriving DecidableEq, Repr

def call (em : EventManager) : Call → EventManager
  | .watchFd fd type => em.watchFd fd type
  | .removeFd fd type => em.removeFd fd type
  | .stop => em.stop
  | .openFd fd => em.openFd fd
  | .close fd => em.close fd

/-- What must hold where a call is made.  A type that is not watched yet is for a descriptor that is
    open and can be watched, and the kernel does not refuse it; nor does it refuse to take a type
    off the list.  No entry is left for a descriptor that is closed, nor for any when the manager
    stops. -/
def Heeded (em : EventManager) : Call → Prop
  | .watchFd fd type =>
      fd = em.eventFd ∨ em.Watches fd type ∨ (em.refuses = false ∧ em.kernel fd ≠ .refused)
  | .removeFd fd type => fd = em.eventFd ∨ (em.Watches fd type → em.refuses = false)
  | .stop => ∀ fd, fd ≠ em.eventFd → em.fds fd = none
  | .openFd _ => True
  | .close fd => fd = em.eventFd ∨ em.fds fd = none

/-- The calls never fail; a failure would be a fault of the caller. -/
def step (em : EventManager) (c : Call) : Except Unit EventManager := .ok (em.call c)

theorem mirror_create (eventFd : Int) (opened : Int → Bool) (refusals : List Bool) :
    (create eventFd opened refusals).Mirror := by
  intro fd hfd
  refine ⟨?_, fun w hw => by cases hw⟩
  show (if fd = eventFd then _ else if opened fd then _ else _ : Descriptor).interest = none
  rw [if_neg (show ¬ fd = eventFd from hfd)]
  cases opened fd <;> rfl

section Events

variable {em : EventManager}

@[simp] theorem watchFd_eventFd (fd : Int) (type : EventType) :
    (em.watchFd fd type).eventFd = em.eventFd := by
  rw [watchFd]
  split <;> rfl

@[simp] theorem removeFd_eventFd (fd : Int) (type : EventType) :
    (em.removeFd fd type).eventFd = em.eventFd := by
  rw [removeFd]
  split
  · rfl
  · split <;> rfl

@[simp] theorem openFd_eventFd (fd : Int) : (em.openFd fd).eventFd = em.eventFd := by
  rw [openFd]
  split <;> rfl

/-- A call keeps the mirror exactly if it is heeded. -/
theorem Mirror.call_iff (h : em.Mirror) (c : Call) : (em.call c).Mirror ↔ em.Heeded c := by
  cases c with
  | watchFd fd type =>
      exact (h.iff_at (watchFd_eventFd fd type) fun _ hne => watchFd_of_ne hne type).trans
        (or_congr_right' fun hevent => (h fd hevent).watchFd_iff type)
  | removeFd fd type =>
      exact (h.iff_at (removeFd_eventFd fd type) fun _ hne => removeFd_of_ne hne type).trans
        (or_congr_right' fun hevent => (h fd hevent).removeFd_iff type)
  | stop => exact h.stop_iff
  | openFd fd =>
      refine iff_of_true ((h.iff_at (openFd_eventFd fd) fun _ hne =>
        ⟨congrFun openFd_fds _, openFd_of_ne hne⟩).mpr ?_) trivial
      exact or_iff_not_imp_left.mpr fun hevent => (h fd hevent).openFd
  | close fd =>
      exact (@Mirror.iff_at em (em.close fd) fd h rfl fun _ hne => ⟨rfl, close_of_ne hne⟩).trans
        (or_congr_right' fun hevent => (h fd hevent).close_iff)

end Events

end EventManager

/-- The kernel watches what `_fds` says in every state, exactly if every call is heeded: what is
    watched is open and `epoll_ctl` is not refused, and nothing is closed, and the manager not
    stopped, before its types are removed. -/
theorem eventManager_mirror_iff (eventFd : Int) (opened : Int → Bool) (refusals : List Bool)
    (calls : List EventManager.Call) :
    EveryState EventManager.step EventManager.Mirror (.create eventFd opened refusals) calls ↔
      AlongRun EventManager.step EventManager.Heeded (.create eventFd opened refusals) calls := by
  refine everyState_iff (fun _ h => h) ?_ ?_ (EventManager.mirror_create eventFd opened refusals)
    calls
  · intro em c em' h hheeded hstep
    obtain rfl := Except.ok.inj hstep
    exact (h.call_iff c).mpr hheeded
  · intro em c h hheeded
    exact ⟨em.call c, rfl, fun hmirror => hheeded ((h.call_iff c).mp hmirror)⟩

end LinuxCodeDemos.ThreadPool

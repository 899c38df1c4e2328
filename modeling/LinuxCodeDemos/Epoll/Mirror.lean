/-
  LinuxCodeDemos.Epoll.Mirror

  The epoll bookkeeping mirrors the interest list of the kernel.

  `epollSetEvents` never asks the kernel: it infers ADD, MOD or DEL from
  `epoll_state`.  As long as every `epoll_ctl` succeeds, `Mirror` holds after any
  sequence of handler updates and closes, in any order and with descriptor
  numbers used again (`epollMirror`).
-/

import LinuxCodeDemos.Epoll.Comm

namespace LinuxCodeDemos.Epoll

open Lib
open Function (update)

variable {H D : Type}

-- ============================================================================
-- Definitions
-- ============================================================================

/-- The calls of the framework that concern epoll. -/
inductive CommOp (H D : Type) where
  | updateRead (fd : Nat) (handler : Option H) (data : Option D)
  | updateWrite (fd : Nat) (handler : Option H) (data : Option D)
  | close (fd : Nat)

def CommOp.fd : CommOp H D → Nat
  | .updateRead fd _ _ => fd
  | .updateWrite fd _ _ => fd
  | .close fd => fd

/-- One call; every `epoll_ctl` succeeds. -/
def commOp (c : Comm H D) : CommOp H D → Except Trap (Comm H D)
  | .updateRead fd handler data => commUpdateReadHandler true fd handler data c
  | .updateWrite fd handler data => commUpdateWriteHandler true fd handler data c
  | .close fd => commClose true fd c

/-- ADD of an absent descriptor, MOD and DEL of a present one. -/
def LogEntry.Legal : LogEntry → Prop
  | .ctl .add _ present => present = false
  | .ctl .mod _ present => present = true
  | .ctl .del _ present => present = true
  | _ => True

/-- How many descriptors have a state that is not zero. -/
def registered (n : Nat) (state : Nat → UInt32) : Nat :=
  (List.range n).countP fun fd => state fd ≠ 0

/-- The bookkeeping and the kernel agree. -/
structure Mirror (c : Comm H D) : Prop where
  state_eq : ∀ fd, c.epollState fd = (c.interest fd).getD 0
  interest_ne : ∀ fd, c.interest fd ≠ some 0
  fds_eq : c.epollFds = registered c.biggestFd c.epollState
  legal : ∀ e ∈ c.log, e.Legal

-- ============================================================================
-- One `epoll_ctl`
-- ============================================================================

/-- Changing one state changes the count by what it was and what it is. -/
theorem registered_update {n fd : Nat} (h : fd < n) (state : Nat → UInt32) (v : UInt32) :
    registered n (update state fd v) + (if state fd ≠ 0 then 1 else 0)
      = registered n state + (if v ≠ 0 then 1 else 0) := by
  have hbeyond : ∀ m ≤ fd, registered m (update state fd v) = registered m state := by
    intro m hm
    apply List.countP_congr
    intro k hk
    have hne : k ≠ fd := by
      have := List.mem_range.mp hk
      omega
    rw [Function.update_of_ne hne]
  induction n with
  | zero => omega
  | succ n ih =>
      have hsucc : ∀ s : Nat → UInt32,
          registered (n + 1) s = registered n s + (if s n ≠ 0 then 1 else 0) := by
        intro s
        rw [registered, List.range_succ, List.countP_append, List.countP_singleton, registered]
        congr 1
        by_cases hz : s n = 0
        · simp [hz]
        · simp [hz]
      rw [hsucc, hsucc]
      by_cases heq : fd = n
      · subst heq
        rw [hbeyond fd (Nat.le_refl _), Function.update_self]
        omega
      · rw [Function.update_of_ne (Ne.symm heq)]
        have := ih (by omega)
        omega

/-- A descriptor is on the interest list exactly when its state is not zero. -/
theorem Mirror.isSome_iff {c : Comm H D} (h : Mirror c) (fd : Nat) :
    (c.interest fd).isSome = true ↔ c.epollState fd ≠ 0 := by
  rw [h.state_eq]
  cases hi : c.interest fd with
  | none => simp
  | some mask =>
      have hne := h.interest_ne fd
      rw [hi] at hne
      simpa using hne

/-- Changes of `fd_table` do not concern the bookkeeping. -/
theorem Mirror.setEntry {c : Comm H D} (h : Mirror c) (fd : Nat) (f : Fde H D → Fde H D) :
    Mirror (setEntry fd f c) :=
  { h with }

/-- The operation that is inferred. -/
theorem ctlType_cases {events state : UInt32} (hne : events ≠ state) :
    (ctlType events state = .del ∧ events = 0 ∧ state ≠ 0) ∨
    (ctlType events state = .mod ∧ events ≠ 0 ∧ state ≠ 0) ∨
    (ctlType events state = .add ∧ events ≠ 0 ∧ state = 0) := by
  by_cases hzero : events = 0
  · exact .inl ⟨if_pos hzero, hzero, fun hold => hne (by rw [hzero, hold])⟩
  · by_cases hold : state = 0
    · refine .inr (.inr ⟨?_, hzero, hold⟩)
      rw [ctlType, if_neg hzero, if_neg (not_not.mpr hold)]
    · refine .inr (.inl ⟨?_, hzero, hold⟩)
      rw [ctlType, if_neg hzero, if_pos hold]

/-- A state that is set together with the kernel's mask. -/
theorem Mirror.update_both {c : Comm H D} (h : Mirror c) (fd : Nat) {events : UInt32}
    {mask : Option UInt32} (hmask : mask.getD 0 = events) (hne : mask ≠ some 0) :
    (∀ k, update c.epollState fd events k = (update c.interest fd mask k).getD 0) ∧
      ∀ k, update c.interest fd mask k ≠ some 0 := by
  refine ⟨?_, ?_⟩
  · intro k
    by_cases hk : k = fd
    · rw [hk, Function.update_self, Function.update_self, hmask]
    · rw [Function.update_of_ne hk, Function.update_of_ne hk, h.state_eq]
  · intro k
    by_cases hk : k = fd
    · rw [hk, Function.update_self]
      exact hne
    · rw [Function.update_of_ne hk]
      exact h.interest_ne k

/-- One `epoll_ctl` that succeeds. -/
theorem Mirror.epollSetEvents {c : Comm H D} (h : Mirror c) {fd : Nat} (hfd : fd < c.biggestFd)
    (needRead needWrite : Bool) : Mirror (epollSetEvents true fd needRead needWrite c) := by
  have hcount := registered_update hfd c.epollState (wantedEvents needRead needWrite)
  have hfds := h.fds_eq
  rw [Epoll.epollSetEvents]
  generalize wantedEvents needRead needWrite = events at hcount ⊢
  simp only [if_true]
  split
  case isFalse => exact h
  case isTrue hne =>
  rcases ctlType_cases hne with ⟨htype, hzero, hold⟩ | ⟨htype, hzero, hold⟩ | ⟨htype, hzero, hold⟩
  · obtain ⟨hstate, hinterest⟩ := h.update_both fd (show (none : Option UInt32).getD 0 = events from
      hzero.symm) (fun h => nomatch h)
    rw [if_pos hold, if_neg (not_not.mpr hzero)] at hcount
    rw [htype]
    refine ⟨hstate, hinterest, ?_, List.forall_mem_cons.mpr ⟨(h.isSome_iff fd).mpr hold, h.legal⟩⟩
    show c.epollFds - 1 = (registered c.biggestFd (update c.epollState fd events) : Int)
    omega
  · obtain ⟨hstate, hinterest⟩ := h.update_both fd (show (some events).getD 0 = events from rfl)
      (fun h => hzero (Option.some.inj h))
    rw [if_pos hold, if_pos hzero] at hcount
    rw [htype]
    refine ⟨hstate, hinterest, ?_, List.forall_mem_cons.mpr ⟨(h.isSome_iff fd).mpr hold, h.legal⟩⟩
    show c.epollFds = (registered c.biggestFd (update c.epollState fd events) : Int)
    omega
  · obtain ⟨hstate, hinterest⟩ := h.update_both fd (show (some events).getD 0 = events from rfl)
      (fun h => hzero (Option.some.inj h))
    rw [if_neg (not_not.mpr hold), if_pos hzero] at hcount
    have habsent : (c.interest fd).isSome = false :=
      Bool.eq_false_iff.mpr fun hsome => (h.isSome_iff fd).mp hsome hold
    rw [htype]
    refine ⟨hstate, hinterest, ?_, List.forall_mem_cons.mpr ⟨habsent, h.legal⟩⟩
    show c.epollFds + 1 = (registered c.biggestFd (update c.epollState fd events) : Int)
    omega

/-- After `epollSetEvents (fd, 0, 0)` the kernel has nothing left to forget. -/
theorem Mirror.closeFd {c : Comm H D} (h : Mirror c) {fd : Nat} (hzero : c.epollState fd = 0) :
    Mirror (closeFd fd c) := by
  have hnone : c.interest fd = none := by
    cases hi : c.interest fd with
    | none => rfl
    | some mask =>
        have hsome := (h.isSome_iff fd).mp (by rw [hi]; rfl)
        exact absurd hzero hsome
  have hsame : (Epoll.closeFd fd c).interest = c.interest := by
    show update c.interest fd none = c.interest
    rw [← hnone, Function.update_eq_self]
  refine ⟨?_, ?_, h.fds_eq, h.legal⟩
  · rw [hsame]
    exact h.state_eq
  · rw [hsame]
    exact h.interest_ne

theorem epollState_epollSetEvents (c : Comm H D) (ok : Bool) (fd : Nat) (needRead needWrite : Bool) :
    (epollSetEvents ok fd needRead needWrite c).epollState fd = wantedEvents needRead needWrite := by
  rw [Epoll.epollSetEvents]
  split
  · exact Function.update_self ..
  · next heq => exact (not_not.mp heq).symm

theorem biggestFd_epollSetEvents (c : Comm H D) (ok : Bool) (fd : Nat)
    (needRead needWrite : Bool) :
    (epollSetEvents ok fd needRead needWrite c).biggestFd = c.biggestFd := by
  rw [Epoll.epollSetEvents]
  split <;> rfl

-- ============================================================================
-- Sequences of calls
-- ============================================================================

theorem commInit_mirror (maxFd : Nat) (isOpen : Nat → Bool) (clock : Int) :
    Mirror (commInit maxFd isOpen clock : Comm H D) where
  state_eq := fun _ => rfl
  interest_ne := fun _ h => nomatch h
  fds_eq := by
    rw [registered, List.countP_eq_zero.mpr (fun fd _ => by simp [commInit])]
    rfl
  legal := fun _ h => nomatch h

/-- One call keeps the mirror and the size of the tables. -/
theorem commOp_mirror {c : Comm H D} {op : CommOp H D} (h : Mirror c) (hpos : 1 ≤ op.fd)
    (hlt : op.fd < c.biggestFd) :
    ∃ c', commOp c op = .ok c' ∧ Mirror c' ∧ c'.biggestFd = c.biggestFd := by
  have hcheck : checkFd op.fd c = .ok () := if_pos hlt
  cases op with
  | updateRead fd handler data =>
      refine ⟨_, by simp only [commOp, commUpdateReadHandler, show checkFd fd c = _ from hcheck]; rfl,
        Mirror.epollSetEvents (h.setEntry fd _) hlt true false, ?_⟩
      rw [biggestFd_epollSetEvents]
      rfl
  | updateWrite fd handler data =>
      refine ⟨_, by simp only [commOp, commUpdateWriteHandler, show checkFd fd c = _ from hcheck]; rfl,
        Mirror.epollSetEvents (h.setEntry fd _) hlt false true, ?_⟩
      rw [biggestFd_epollSetEvents]
      rfl
  | close fd =>
      have hne : fd ≠ 0 := Nat.one_le_iff_ne_zero.mp hpos
      refine ⟨_, by
          simp only [commOp, commClose, if_neg hne, show checkFd fd c = _ from hcheck]; rfl,
        (Mirror.epollSetEvents (h.setEntry fd _) hlt false false).closeFd ?_, ?_⟩
      · exact epollState_epollSetEvents _ true fd false false
      · show (epollSetEvents true fd false false _).biggestFd = _
        rw [biggestFd_epollSetEvents]
        rfl

theorem commOps_mirror {c : Comm H D} (h : Mirror c) {ops : List (CommOp H D)}
    (hops : ∀ op ∈ ops, 1 ≤ op.fd ∧ op.fd < c.biggestFd) :
    ∃ c', runSteps commOp c ops = .ok c' ∧ Mirror c' ∧ c'.biggestFd = c.biggestFd := by
  induction ops generalizing c with
  | nil => exact ⟨c, rfl, h, rfl⟩
  | cons op ops ih =>
      obtain ⟨⟨hpos, hlt⟩, hrest⟩ := List.forall_mem_cons.mp hops
      obtain ⟨c₁, hstep, hmirror, hsize⟩ := commOp_mirror h hpos hlt
      rw [← hsize] at hrest
      obtain ⟨c₂, hrun, hmirror', hsize'⟩ := ih hmirror hrest
      refine ⟨c₂, ?_, hmirror', hsize'.trans hsize⟩
      rw [runSteps_cons_ok hstep, hrun]

/-- After any sequence of handler updates and closes of descriptors in
    `1..Biggest_FD - 1` with every `epoll_ctl` succeeding, `epoll_state` is the mask
    that the kernel holds, every `epoll_ctl` so far was legal, and `epoll_fds` counts
    the descriptors with a state that is not zero. -/
theorem epollMirror (maxFd : Nat) (isOpen : Nat → Bool) (clock : Int) (ops : List (CommOp H D))
    (hops : ∀ op ∈ ops, 1 ≤ op.fd ∧
      op.fd < (commInit maxFd isOpen clock : Comm H D).biggestFd) :
    ∃ c, runSteps commOp (commInit maxFd isOpen clock) ops = .ok c ∧
      (∀ fd, c.epollState fd = (c.interest fd).getD 0) ∧
      (∀ e ∈ c.log, e.Legal) ∧
      c.epollFds = registered c.biggestFd c.epollState := by
  obtain ⟨c, hrun, hmirror, _⟩ := commOps_mirror (commInit_mirror maxFd isOpen clock) hops
  exact ⟨c, hrun, hmirror.state_eq, hmirror.legal, hmirror.fds_eq⟩

/-- Descriptor 5 is registered, closed and used again. -/
theorem epollMirror_reuse :
    ∃ c, runSteps commOp (commInit 8 (fun _ => true) 0 : Comm Unit Unit)
        [.updateWrite 5 none none, .updateRead 5 none none, .close 5, .updateRead 5 none none]
        = .ok c ∧
      (∀ fd, c.epollState fd = (c.interest fd).getD 0) ∧ (∀ e ∈ c.log, e.Legal) ∧
      c.epollFds = registered c.biggestFd c.epollState :=
  epollMirror 8 _ 0 _ (by decide)

end LinuxCodeDemos.Epoll

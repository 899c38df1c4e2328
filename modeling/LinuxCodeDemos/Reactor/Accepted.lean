/-
  LinuxCodeDemos.Reactor.Accepted

  The descriptors that `accept` has returned.

  `acceptconn` gives a new descriptor a slot, or leaves it open without one: when all
  `MAX_EVENTS` slots are busy, and when `fcntl` fails.  Nothing finds such a descriptor again.
  So every accepted descriptor is held by one slot all along a run exactly if no `accept` of
  the run meets a full table or a failing `fcntl` (`holding_iff`).
-/

import LinuxCodeDemos.Reactor.Table

namespace LinuxCodeDemos.Reactor

open Lib
open Function (update)

-- ============================================================================
-- Definitions
-- ============================================================================

/-- The slot whose callback a step calls. -/
def Server.calledSlot (s : Server) : Option Nat :=
  match s.control with
  | .input ((slot, bits) :: _) =>
      if bits &&& epollIn ≠ 0 ∧ (s.slots slot).events &&& epollIn ≠ 0 then some slot else none
  | .output slot bits _ =>
      if bits &&& epollOut ≠ 0 ∧ (s.slots slot).events &&& epollOut ≠ 0 then some slot else none
  | _ => none

/-- If `accept` returns a descriptor in this step, a slot is free and `fcntl` succeeds. -/
def TakesIn (s : Server) (i : Input) : Prop :=
  s.calledSlot.bind (fun slot => (s.slots slot).callBack) = some .acceptconn →
    (s.kernel.accept i.accepted).isSome = true → s.freeSlot.isSome = true ∧ i.fcntl = true

instance (s : Server) (i : Input) : Decidable (TakesIn s i) :=
  inferInstanceAs (Decidable (_ → _ → _))

/-- Every descriptor that `accept` has returned and that is open is held by exactly one slot with
    status 1.  Connection 0 stands for what was open at the start. -/
def Holding (s : Server) : Prop :=
  ∀ fd conn, s.kernel.opened fd = some conn → conn ≠ 0 →
    ∃! slot, slot ≤ maxEvents ∧ (s.slots slot).status = true ∧ (s.slots slot).fd = fd

/-- Some slot holds every accepted descriptor. -/
def Held (slots : Nat → MyEvent) (k : Kernel) : Prop :=
  ∀ fd conn, k.opened fd = some conn → conn ≠ 0 →
    ∃ slot, (slots slot).status = true ∧ (slots slot).fd = fd

/-- The table is in order and every accepted descriptor has its slot. -/
structure HeldInv (lfd : Nat) (s : Server) : Prop where
  tableInv : TableInv lfd s
  held : Held s.slots s.kernel
  next_pos : 0 < s.kernel.next

-- ============================================================================
-- Slots and descriptors
-- ============================================================================

section Keeping

variable {lfd slot : Nat} {slots : Nat → MyEvent} {k k' : Kernel} {ev : MyEvent}

@[simp] theorem opened_ctlAdd (fd : Nat) (events : UInt32) :
    (k.ctlAdd fd slot events).opened = k.opened := by
  rw [Kernel.ctlAdd]
  split <;> rfl

@[simp] theorem opened_ctlDel (fd : Nat) : (k.ctlDel fd).opened = k.opened := rfl

@[simp] theorem next_ctlAdd (fd : Nat) (events : UInt32) :
    (k.ctlAdd fd slot events).next = k.next := by
  rw [Kernel.ctlAdd]
  split <;> rfl

/-- A slot is given up together with its descriptor. -/
theorem Held.drop (h : Held slots k) (hopened : k'.opened = update k.opened (slots slot).fd none) :
    Held (update slots slot ev) k' := by
  intro fd conn hfd hconn
  rw [hopened] at hfd
  have hne : fd ≠ (slots slot).fd := by
    rintro rfl
    rw [Function.update_self] at hfd
    cases hfd
  rw [Function.update_of_ne hne] at hfd
  obtain ⟨j, hj, hjfd⟩ := h fd conn hfd hconn
  have hjne : j ≠ slot := by
    rintro rfl
    exact hne hjfd.symm
  exact ⟨j, by rw [Function.update_of_ne hjne]; exact ⟨hj, hjfd⟩⟩

/-- A slot keeps its descriptor. -/
theorem Held.switch (h : Held slots k) (hev : ev.status = true) (hfd : ev.fd = (slots slot).fd)
    (hopened : k'.opened = k.opened) : Held (update slots slot ev) k' := by
  intro fd conn hopen hconn
  rw [hopened] at hopen
  obtain ⟨j, hj, hjfd⟩ := h fd conn hopen hconn
  by_cases heq : j = slot
  · refine ⟨slot, ?_⟩
    rw [Function.update_self, hev, hfd, ← heq]
    exact ⟨rfl, hjfd⟩
  · exact ⟨j, by rw [Function.update_of_ne heq]; exact ⟨hj, hjfd⟩⟩

/-- A new descriptor gets a free slot. -/
theorem Held.take (h : Held slots k) (hfree : (slots slot).status = false) (hev : ev.status = true)
    {conn : Option Nat} (hopened : k'.opened = update k.opened ev.fd conn) :
    Held (update slots slot ev) k' := by
  intro fd c hopen hconn
  rw [hopened] at hopen
  by_cases hfd : fd = ev.fd
  · exact ⟨slot, by rw [Function.update_self]; exact ⟨hev, hfd.symm⟩⟩
  · rw [Function.update_of_ne hfd] at hopen
    obtain ⟨j, hj, hjfd⟩ := h fd c hopen hconn
    have hne : j ≠ slot := by
      rintro rfl
      rw [hfree] at hj
      cases hj
    exact ⟨j, by rw [Function.update_of_ne hne]; exact ⟨hj, hjfd⟩⟩

end Keeping

-- ============================================================================
-- Steps
-- ============================================================================

section Steps

variable {clients : Clients} {lfd slot : Nat} {s s' : Server} {i : Input}

/-- A step without a callback leaves slots and kernel alone or times a connection out. -/
theorem TableInv.step_of_calledSlot_none (h : TableInv lfd s) (hcalled : s.calledSlot = none)
    (hstep : s.step clients i = .ok s') :
    (s'.slots = s.slots ∧ s'.kernel = s.kernel) ∨ ∃ pos,
      s'.slots = update s.slots pos { s.slots pos with status := false } ∧
        s'.kernel = Kernel.ctlDel (s.slots pos).fd (Kernel.close (s.slots pos).fd s.kernel) := by
  rw [Server.calledSlot] at hcalled
  rw [Server.step] at hstep
  split at hstep
  case h_1 n hcontrol =>
    obtain ⟨now, hnow⟩ := exists_now s n i
    simp only [hnow] at hstep
    split at hstep
    · cases hstep
      obtain ⟨pos, -, heq | ⟨-, heq⟩⟩ := scanTurn_cases (s := { s with now }) h.checkpos_le
      · rw [heq]
        exact .inl ⟨rfl, rfl⟩
      · rw [heq]
        exact .inr ⟨pos, rfl, rfl⟩
    · cases hstep
      exact .inl ⟨rfl, rfl⟩
  case h_2 hcontrol =>
    split at hstep
    · cases hstep
      exact .inl ⟨rfl, rfl⟩
    · cases hstep
      exact .inl ⟨rfl, rfl⟩
  case h_3 hcontrol =>
    cases hstep
    exact .inl ⟨rfl, rfl⟩
  case h_4 slot bits batch hcontrol =>
    rw [hcontrol] at hcalled
    have hno := fun htest => Option.some_ne_none _ ((if_pos htest).symm.trans hcalled)
    rw [if_neg hno] at hstep
    cases hstep
    exact .inl ⟨rfl, rfl⟩
  case h_5 slot bits batch hcontrol =>
    rw [hcontrol] at hcalled
    have hno := fun htest => Option.some_ne_none _ ((if_pos htest).symm.trans hcalled)
    rw [if_neg hno] at hstep
    cases hstep
    exact .inl ⟨rfl, rfl⟩
  case h_6 hcontrol =>
    cases hstep
    exact .inl ⟨rfl, rfl⟩

/-- A callback that a step makes is one of a slot in use, and the step does nothing else. -/
theorem TableInv.step_of_calledSlot (h : TableInv lfd s) (hcalled : s.calledSlot = some slot)
    (clients : Clients) (i : Input) :
    (s.slots slot).status = true ∧ ∃ s'' control, s.callBack clients slot i = .ok s'' ∧
      s.step clients i = .ok { s'' with control } := by
  obtain ⟨htable, hbatch, -⟩ := h
  rw [Server.calledSlot] at hcalled
  rw [Server.step]
  rcases hcontrol : s.control with n | _ | batch | ⟨slot', bits, batch⟩ | _
  · rw [hcontrol] at hcalled
    cases hcalled
  · rw [hcontrol] at hcalled
    cases hcalled
  · rw [hcontrol] at hcalled hbatch
    rcases batch with _ | ⟨⟨slot', bits⟩, batch⟩
    · cases hcalled
    · dsimp only at hcalled ⊢
      split at hcalled
      · next htest =>
        cases hcalled
        have hstatus : (s.slots slot).status = true := hbatch.status _ (List.mem_cons_self ..)
        obtain ⟨s'', hs'', -⟩ := htable.callBack clients hstatus i
        rw [if_pos htest, hs'']
        exact ⟨hstatus, s'', .output slot bits batch, rfl, rfl⟩
      · cases hcalled
  · rw [hcontrol] at hcalled hbatch
    dsimp only at hcalled ⊢
    split at hcalled
    · next htest =>
      cases hcalled
      have hstatus : (s.slots slot).status = true := hbatch.2.2.resolve_left htest.1
      obtain ⟨s'', hs'', -⟩ := htable.callBack clients hstatus i
      rw [if_pos htest, hs'']
      exact ⟨hstatus, s'', .input batch, rfl, rfl⟩
    · cases hcalled
  · rw [hcontrol] at hcalled
    cases hcalled

/-- The callbacks of connections lose no descriptor. -/
theorem Effect.held (he : Effect clients s slot i s') (h : Held s.slots s.kernel)
    (hlt : slot < maxEvents) : Held s'.slots s'.kernel := by
  cases he with
  | nobody heq | stray heq | joined heq => exact absurd heq (Nat.ne_of_lt hlt)
  | received | answered => exact h.switch rfl rfl (by rw [opened_ctlAdd, opened_ctlDel])
  | closed | cut => exact h.drop rfl

theorem Effect.next_pos (he : Effect clients s slot i s') (h : 0 < s.kernel.next) :
    0 < s'.kernel.next := by
  cases he with
  | nobody | closed | cut => exact h
  | stray => exact Nat.succ_pos _
  | joined =>
      rw [next_ctlAdd]
      exact Nat.succ_pos _
  | received | answered =>
      rw [next_ctlAdd]
      exact h

theorem freeSlot_kernel (s : Server) (kernel : Kernel) :
    Server.freeSlot { s with kernel } = s.freeSlot := rfl

/-- `acceptconn` with a free slot and a working `fcntl`. -/
theorem held_acceptconn (h : Held s.slots s.kernel)
    (htakes : (s.kernel.accept i.accepted).isSome = true →
      s.freeSlot.isSome = true ∧ i.fcntl = true) :
    Held (s.acceptconn i).slots (s.acceptconn i).kernel := by
  rw [Server.acceptconn]
  rcases Server.accept_cases s.kernel i.accepted with haccept | ⟨fd, -, haccept⟩
  · rw [haccept]
    exact h
  · rw [haccept] at htakes ⊢
    obtain ⟨hsome, hfcntl⟩ := htakes rfl
    obtain ⟨free, hfree⟩ := Option.isSome_iff_exists.mp hsome
    obtain ⟨-, hstatus⟩ := Server.freeSlot_eq_some hfree
    dsimp only
    rw [freeSlot_kernel, hfree]
    dsimp only
    rw [if_pos hfcntl, Server.eventadd_eventset]
    exact h.take hstatus rfl (by rw [opened_ctlAdd]; rfl)

/-- `acceptconn` without a free slot or with a failing `fcntl`: the new descriptor is open and no
    slot holds it. -/
theorem acceptconn_strays (h : Table lfd s.slots s.kernel) (hpos : 0 < s.kernel.next)
    (haccept : (s.kernel.accept i.accepted).isSome = true)
    (hno : ¬ (s.freeSlot.isSome = true ∧ i.fcntl = true)) :
    ∃ fd conn, (s.acceptconn i).kernel.opened fd = some conn ∧ conn ≠ 0 ∧
      ∀ slot, ((s.acceptconn i).slots slot).status = true →
        ((s.acceptconn i).slots slot).fd ≠ fd := by
  rcases Server.accept_cases s.kernel i.accepted with hnone | ⟨fd, hclosed, hsome⟩
  · rw [hnone] at haccept
    cases haccept
  · have hresult : s.acceptconn i = { s with kernel := { s.kernel with
        opened := update s.kernel.opened fd (some s.kernel.next), next := s.kernel.next + 1 } } := by
      rw [Server.acceptconn, hsome]
      dsimp only
      split
      · rfl
      · next free hfree =>
        have hfcntl : ¬ i.fcntl = true := fun hf => hno ⟨Option.isSome_of_mem hfree, hf⟩
        rw [if_neg hfcntl]
    rw [hresult]
    refine ⟨fd, s.kernel.next, Function.update_self .., Nat.ne_of_gt hpos, ?_⟩
    intro slot hstatus hfd
    have hopen := h.isOpen slot hstatus
    rw [show (s.slots slot).fd = fd from hfd, hclosed] at hopen
    cases hopen

/-- The slot of an accepted descriptor is the only one. -/
theorem HeldInv.holding (h : HeldInv lfd s) : Holding s := by
  intro fd conn hopen hconn
  obtain ⟨slot, hstatus, hfd⟩ := h.held fd conn hopen hconn
  refine ⟨slot, ⟨h.tableInv.table.le_maxEvents slot hstatus, hstatus, hfd⟩, ?_⟩
  rintro j ⟨-, hj, hjfd⟩
  exact h.tableInv.table.fd_inj hj hstatus (hjfd.trans hfd.symm)

/-- A step that takes its new descriptor in keeps the invariant. -/
theorem HeldInv.step (h : HeldInv lfd s) (htakes : TakesIn s i)
    (hstep : s.step clients i = .ok s') : HeldInv lfd s' := by
  have hinv := ((h.tableInv.step clients i).of_ok hstep).1
  cases hcalled : s.calledSlot with
  | none =>
      rcases h.tableInv.step_of_calledSlot_none hcalled hstep with
        ⟨hslots, hkernel⟩ | ⟨pos, hslots, hkernel⟩
      · refine ⟨hinv, ?_, ?_⟩
        · rw [hslots, hkernel]
          exact h.held
        · rw [hkernel]
          exact h.next_pos
      · refine ⟨hinv, ?_, ?_⟩
        · rw [hslots, hkernel]
          exact h.held.drop rfl
        · rw [hkernel]
          exact h.next_pos
  | some slot =>
      obtain ⟨hstatus, s'', control, hcall, hresult⟩ :=
        h.tableInv.step_of_calledSlot hcalled clients i
      obtain rfl : { s'' with control } = s' := Except.ok.inj (hresult.symm.trans hstep)
      obtain ⟨t, ht, heffect⟩ := h.tableInv.table.callBack clients hstatus i
      obtain rfl : s'' = t := Except.ok.inj (hcall.symm.trans ht)
      refine ⟨hinv, ?_, heffect.next_pos h.next_pos⟩
      rcases Nat.lt_or_eq_of_le (h.tableInv.table.le_maxEvents slot hstatus) with hlt | heq
      · exact heffect.held h.held hlt
      · have haccept : (s.slots slot).callBack = some .acceptconn := by
          rw [heq]
          exact h.tableInv.table.listening.callBack
        rw [TakesIn, hcalled, Option.bind_some, haccept] at htakes
        rw [Server.callBack, haccept] at hcall
        cases hcall
        have hheld := held_acceptconn h.held (htakes rfl)
        exact hheld

/-- A step that does not take its new descriptor in loses it. -/
theorem HeldInv.step_strays (h : HeldInv lfd s) (clients : Clients) (hno : ¬ TakesIn s i) :
    ∃ s', s.step clients i = .ok s' ∧ ¬ Holding s' := by
  rw [TakesIn, Classical.not_imp, Classical.not_imp] at hno
  obtain ⟨hbind, haccept, hfull⟩ := hno
  obtain ⟨slot, hcalled, hconn⟩ := Option.bind_eq_some_iff.mp hbind
  obtain ⟨-, s'', control, hcall, hresult⟩ := h.tableInv.step_of_calledSlot hcalled clients i
  rw [Server.callBack, hconn] at hcall
  cases hcall
  refine ⟨_, hresult, fun hholding => ?_⟩
  obtain ⟨fd, conn, hopen, hne, hfree⟩ :=
    acceptconn_strays h.tableInv.table h.next_pos haccept hfull
  obtain ⟨j, ⟨-, hj, hjfd⟩, -⟩ := hholding fd conn hopen hne
  exact hfree j hj hjfd

end Steps

-- ============================================================================
-- Runs
-- ============================================================================

theorem heldInv_start (lfd : Nat) (isOpen : Nat → Bool) (time : Int) :
    HeldInv lfd (Server.start lfd isOpen time) := by
  refine ⟨tableInv_start lfd isOpen time, ?_, ?_⟩
  · intro fd conn hopen hconn
    rw [Server.start, Server.eventadd_eventset] at hopen
    dsimp only at hopen
    rw [opened_ctlAdd] at hopen
    dsimp only at hopen
    by_cases hfd : fd = lfd
    · rw [hfd] at hopen
      exact absurd (Option.some.inj (hopen.symm.trans (Function.update_self ..))) hconn
    · rw [Function.update_of_ne hfd] at hopen
      split at hopen
      · exact absurd (Option.some.inj hopen).symm hconn
      · cases hopen
  · rw [Server.start, Server.eventadd_eventset]
    dsimp only
    rw [next_ctlAdd]
    exact Nat.one_pos

/-- Along a run every accepted descriptor has its slot exactly if, whenever `accept` returns one,
    some slot is free and `fcntl` succeeds. -/
theorem holding_iff (clients : Clients) (lfd : Nat) (isOpen : Nat → Bool) (time : Int)
    (inputs : List Input) :
    EveryState (Server.step clients) Holding (Server.start lfd isOpen time) inputs ↔
      AlongRun (Server.step clients) TakesIn (Server.start lfd isOpen time) inputs :=
  everyState_iff (fun _ h => h.holding) (fun _ _ _ h htakes hstep => h.step htakes hstep)
    (fun _ _ h hno => h.step_strays clients hno) (heldInv_start lfd isOpen time) inputs

/-- One client connects and `fcntl` fails. -/
def failingFcntl : List Input :=
  let event : Input :=
    { time := 0, wait := some [(3, epollIn)], accepted := some 5, fcntl := false, recv := .error
      sent := 0 }
  List.replicate 103 event

theorem length_zero_le : [(0 : UInt8)].length ≤ bufLen := Nat.le_add_left 1 255

/-- Clients that send one byte again and again. -/
def zeroClients : Clients := fun _ _ =>
  { bytes := [0], ne_nil := List.cons_ne_nil _ _, le_bufLen := length_zero_le }

/-- Descriptor 5 stays open and is in no slot. -/
theorem not_holding_failingFcntl :
    ¬ EveryState (Server.step zeroClients) Holding (Server.start 3 (fun fd => fd < 3) 0)
      failingFcntl := by
  intro hall
  have hrun : (Server.run zeroClients 3 (fun fd => fd < 3) 0 failingFcntl).map (fun s =>
      (s.kernel.opened 5, (List.range (maxEvents + 1)).all fun slot =>
        ¬ ((s.slots slot).status = true ∧ (s.slots slot).fd = 5))) = .ok (some 1, true) := by
    decide +kernel
  obtain ⟨s, hs, hview⟩ := exists_ok_of_map hrun
  obtain ⟨hopen, hfree⟩ := Prod.mk.inj hview
  obtain ⟨slot, ⟨hle, hstatus, hfd⟩, -⟩ := hall.last hs 5 1 hopen Nat.one_ne_zero
  have hslot := List.all_eq_true.mp hfree slot (List.mem_range.mpr (Nat.lt_succ_of_le hle))
  exact of_decide_eq_true hslot ⟨hstatus, hfd⟩

end LinuxCodeDemos.Reactor

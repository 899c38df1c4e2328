/-
  LinuxCodeDemos.Reactor.Table

  The slot table of the Reactor server.

  `Table` ties `g_events`, the registrations of `g_efd` and the open descriptors
  together.  What a callback can do is said once (`Effect`); every effect and
  every turn of the timeout scan keeps the table.  Events of a batch stay in step
  with it, since a callback leaves the slots of the events that are still to come
  alone (`Pending`).  The result is `slotTable_run`.
-/

import LinuxCodeDemos.Reactor.Server

namespace LinuxCodeDemos.Reactor

open Lib
open Function (update)

-- ============================================================================
-- Definitions
-- ============================================================================

/-- The slot of the listening socket. -/
structure Listening (lfd : Nat) (ev : MyEvent) : Prop where
  fd : ev.fd = lfd
  status : ev.status = true
  callBack : ev.callBack = some .acceptconn
  events : ev.events = epollIn

/-- The slot of a connection: it waits for input or for output. -/
structure Serving (slot : Nat) (ev : MyEvent) : Prop where
  arg : ev.arg = slot
  phase : ev.callBack = some .recvdata ∧ ev.events = epollIn ∨
    ev.callBack = some .senddata ∧ ev.events = epollOut

/-- The slots, the registrations and the open descriptors agree. -/
structure Table (lfd : Nat) (slots : Nat → MyEvent) (k : Kernel) : Prop where
  le_maxEvents : ∀ slot, (slots slot).status = true → slot ≤ maxEvents
  isOpen : ∀ slot, (slots slot).status = true → (k.opened (slots slot).fd).isSome = true
  registered_iff : ∀ fd slot mask, k.registered fd = some (slot, mask) ↔
    (slots slot).status = true ∧ (slots slot).fd = fd ∧ (slots slot).events = mask
  listening : Listening lfd (slots maxEvents)
  serving : ∀ slot < maxEvents, (slots slot).status = true → Serving slot (slots slot)

/-- The events that are still to come: slots in use, each at most once, with the
    events they ask for and errors. -/
structure Pending (slots : Nat → MyEvent) (batch : List (Nat × UInt32)) : Prop where
  status : ∀ e ∈ batch, (slots e.1).status = true
  wanted : ∀ e ∈ batch, ∃ bits, e.2 = bits &&& ((slots e.1).events ||| (epollErr ||| epollHup))
  distinct : batch.Pairwise fun e e' => e.1 ≠ e'.1

/-- What holds of the batch at a place of the loop. -/
def InBatch (slots : Nat → MyEvent) : Control → Prop
  | .input batch => Pending slots batch
  | .output slot bits batch =>
      Pending slots batch ∧ (∀ e ∈ batch, slot ≠ e.1) ∧
        (bits &&& epollOut = 0 ∨ (slots slot).status = true)
  | _ => True

/-- The invariant of the loop. -/
structure TableInv (lfd : Nat) (s : Server) : Prop where
  table : Table lfd s.slots s.kernel
  inBatch : InBatch s.slots s.control
  checkpos_le : s.checkpos ≤ maxEvents

/-- The slot gets a new role; `buf` and `len` stay. -/
def MyEvent.switch (fd : Nat) (callBack : CallBack) (events : UInt32) (slot : Nat) (time : Int)
    (ev : MyEvent) : MyEvent :=
  { ev with
    fd, callBack := some callBack, events, arg := slot, status := true, lastActive := time }

/-- What a callback of a slot in use can do. -/
inductive Effect (clients : Clients) (s : Server) (slot : Nat) (i : Input) : Server → Prop where
  | nobody (h : slot = maxEvents) : Effect clients s slot i s
  /-- There is no slot, or `fcntl` fails. -/
  | stray (h : slot = maxEvents) (fd : Nat) (hfd : s.kernel.opened fd = none) :
      Effect clients s slot i { s with kernel := { s.kernel with
        opened := update s.kernel.opened fd (some s.kernel.next), next := s.kernel.next + 1 } }
  | joined (h : slot = maxEvents) (fd : Nat) (hfd : s.kernel.opened fd = none) (free : Nat)
      (hlt : free < maxEvents) (hfree : (s.slots free).status = false) :
      Effect clients s slot i { s with
        slots := update s.slots free
          (MyEvent.switch fd .recvdata epollIn free i.time (s.slots free))
        kernel := Kernel.ctlAdd fd free epollIn { s.kernel with
          opened := update s.kernel.opened fd (some s.kernel.next), next := s.kernel.next + 1 } }
  | received (h : slot < maxEvents) (hcall : (s.slots slot).callBack = some .recvdata) (conn : Nat)
      (hconn : s.kernel.opened (s.slots slot).fd = some conn) (bytes : List UInt8)
      (hbytes : bytes = (clients conn (Server.chunksRead conn s.log)).bytes) :
      Effect clients s slot i { s with
        slots := update s.slots slot
          (MyEvent.switch (s.slots slot).fd .senddata epollOut slot i.time
            (Server.fillBuf bytes (s.slots slot)))
        kernel := Kernel.ctlAdd (s.slots slot).fd slot epollOut
          (Kernel.ctlDel (s.slots slot).fd s.kernel)
        log := .recv conn bytes :: s.log }
  | closed (h : slot < maxEvents) (hcall : (s.slots slot).callBack = some .recvdata) :
      Effect clients s slot i { s with
        slots := update s.slots slot { s.slots slot with status := false }
        kernel := Kernel.close (s.slots slot).fd (Kernel.ctlDel (s.slots slot).fd s.kernel) }
  | answered (h : slot < maxEvents) (hcall : (s.slots slot).callBack = some .senddata) (conn : Nat)
      (hconn : s.kernel.opened (s.slots slot).fd = some conn) :
      Effect clients s slot i { s with
        slots := update s.slots slot
          (MyEvent.switch (s.slots slot).fd .recvdata epollIn slot i.time (s.slots slot))
        kernel := Kernel.ctlAdd (s.slots slot).fd slot epollIn
          (Kernel.ctlDel (s.slots slot).fd s.kernel)
        log := .send conn ((s.slots slot).buf.take (s.slots slot).len) :: s.log }
  | cut (h : slot < maxEvents) (hcall : (s.slots slot).callBack = some .senddata) (conn : Nat)
      (hconn : s.kernel.opened (s.slots slot).fd = some conn) :
      Effect clients s slot i { s with
        slots := update s.slots slot { s.slots slot with status := false }
        kernel := Kernel.close (s.slots slot).fd (Kernel.ctlDel (s.slots slot).fd s.kernel)
        log := .send conn ((s.slots slot).buf.take (s.slots slot).len) :: s.log }

/-- What a step can do to the slots, the kernel and the log. -/
inductive Turn (clients : Clients) (s : Server) (i : Input) (s' : Server) : Prop where
  | quiet (hslots : s'.slots = s.slots) (hkernel : s'.kernel = s.kernel) (hlog : s'.log = s.log)
  | timeout (pos : Nat) (hlt : pos < maxEvents) (hstatus : (s.slots pos).status = true)
      (hslots : s'.slots = update s.slots pos { s.slots pos with status := false })
      (hkernel : s'.kernel
        = Kernel.ctlDel (s.slots pos).fd (Kernel.close (s.slots pos).fd s.kernel))
      (hlog : s'.log = s.log)
  | event (slot : Nat) (hstatus : (s.slots slot).status = true) (s'' : Server)
      (he : Effect clients s slot i s'') (hslots : s'.slots = s''.slots)
      (hkernel : s'.kernel = s''.kernel) (hlog : s'.log = s''.log)

-- ============================================================================
-- The effects
-- ============================================================================

namespace Server

theorem eventdel_of_status {s : Server} {slot : Nat} (h : (s.slots slot).status = true) :
    s.eventdel slot = { s with
      slots := update s.slots slot { s.slots slot with status := false }
      kernel := Kernel.ctlDel (s.slots slot).fd s.kernel } := if_pos h

theorem eventadd_eventset (s : Server) (slot fd : Nat) (callBack : CallBack) (time : Int)
    (events : UInt32) :
    (s.eventset slot fd callBack time).eventadd events slot = { s with
      slots := update s.slots slot (MyEvent.switch fd callBack events slot time (s.slots slot))
      kernel := Kernel.ctlAdd fd slot events s.kernel } := by
  simp only [eventset, eventadd, setSlot, setKernel, Function.update_self, Function.update_idem,
    MyEvent.switch, Bool.false_eq_true, if_false]

/-- What `recvdata` stores does not depend on `eventdel`. -/
theorem switch_fillBuf_status (fd slot : Nat) (callBack : CallBack) (events : UInt32) (time : Int)
    (bytes : List UInt8) (ev : MyEvent) :
    MyEvent.switch fd callBack events slot time (fillBuf bytes { ev with status := false })
      = MyEvent.switch fd callBack events slot time (fillBuf bytes ev) := by
  simp only [fillBuf, MyEvent.switch]
  split <;> rfl

/-- The slot that `acceptconn` finds. -/
theorem freeSlot_eq_some {s : Server} {slot : Nat} (h : s.freeSlot = some slot) :
    slot < maxEvents ∧ (s.slots slot).status = false := by
  have hmem := List.mem_of_find?_eq_some h
  have hfree := List.find?_some h
  exact ⟨List.mem_range.mp hmem, by simpa using hfree⟩

/-- `accept` opens a descriptor that was not open. -/
theorem accept_cases (k : Kernel) (choice : Option Nat) :
    k.accept choice = none ∨ ∃ fd, k.opened fd = none ∧
      k.accept choice = some (fd, { k with
        opened := update k.opened fd (some k.next), next := k.next + 1 }) := by
  cases choice with
  | none => exact .inl rfl
  | some fd =>
      by_cases hopen : (k.opened fd).isSome = true
      · exact .inl (if_pos hopen)
      · exact .inr ⟨fd, Option.not_isSome_iff_eq_none.mp hopen, if_neg hopen⟩

theorem acceptconn_effect (clients : Clients) (s : Server) (i : Input) :
    Effect clients s maxEvents i (s.acceptconn i) := by
  rw [acceptconn]
  rcases accept_cases s.kernel i.accepted with haccept | ⟨fd, hnone, haccept⟩
  · rw [haccept]
    exact .nobody rfl
  · rw [haccept]
    dsimp only
    split
    · exact .stray rfl fd hnone
    · next free hfree =>
      obtain ⟨hlt, hstatus⟩ := freeSlot_eq_some hfree
      split
      · rw [eventadd_eventset]
        exact .joined rfl fd hnone free hlt hstatus
      · exact .stray rfl fd hnone

theorem recvdata_effect (clients : Clients) {s : Server} {slot : Nat} (i : Input)
    (hlt : slot < maxEvents) (hstatus : (s.slots slot).status = true)
    (hcall : (s.slots slot).callBack = some .recvdata) :
    Effect clients s slot i (s.recvdata clients (s.slots slot).fd slot i) := by
  rw [recvdata]
  split
  · next conn hrecv hconn =>
    dsimp only
    rw [eventadd_eventset, eventdel_of_status (by exact hstatus)]
    simp only [setSlot, Function.update_self, Function.update_idem, switch_fillBuf_status]
    exact .received hlt hcall conn hconn _ rfl
  · dsimp only
    rw [eventdel_of_status hstatus]
    simp only [setKernel, Function.update_self]
    exact .closed hlt hcall

theorem senddata_effect (clients : Clients) {s : Server} {slot : Nat} (i : Input)
    (hlt : slot < maxEvents) (hstatus : (s.slots slot).status = true)
    (hopen : (s.kernel.opened (s.slots slot).fd).isSome = true)
    (hcall : (s.slots slot).callBack = some .senddata) :
    Effect clients s slot i (s.senddata (s.slots slot).fd slot i) := by
  obtain ⟨conn, hconn⟩ := Option.isSome_iff_exists.mp hopen
  rw [senddata]
  simp only [hconn]
  rw [eventdel_of_status (by exact hstatus)]
  split
  · rw [eventadd_eventset]
    simp only [Function.update_self, Function.update_idem]
    exact .answered hlt hcall conn hconn
  · simp only [setKernel, Function.update_self]
    exact .cut hlt hcall conn hconn

end Server

/-- A callback of a slot in use never goes through NULL and has one of the effects. -/
theorem Table.callBack {lfd : Nat} {s : Server} (h : Table lfd s.slots s.kernel)
    (clients : Clients) {slot : Nat} (hstatus : (s.slots slot).status = true) (i : Input) :
    ∃ s', s.callBack clients slot i = .ok s' ∧ Effect clients s slot i s' := by
  rw [Server.callBack]
  rcases Nat.lt_or_eq_of_le (h.le_maxEvents slot hstatus) with hlt | rfl
  · obtain ⟨harg, hphase⟩ := h.serving slot hlt hstatus
    rcases hphase with ⟨hcall, -⟩ | ⟨hcall, -⟩
    · rw [hcall, harg]
      exact ⟨_, rfl, Server.recvdata_effect clients i hlt hstatus hcall⟩
    · rw [hcall, harg]
      exact ⟨_, rfl, Server.senddata_effect clients i hlt hstatus (h.isOpen slot hstatus) hcall⟩
  · rw [h.listening.callBack]
    exact ⟨_, rfl, Server.acceptconn_effect clients s i⟩

-- ============================================================================
-- The table
-- ============================================================================

/-- Giving a slot up leaves the others. -/
theorem status_update_false {slots : Nat → MyEvent} {slot j : Nat} {ev : MyEvent}
    (hev : ev.status = false) (hj : (update slots slot ev j).status = true) :
    j ≠ slot ∧ update slots slot ev j = slots j := by
  by_cases heq : j = slot
  · rw [heq, Function.update_self, hev] at hj
    cases hj
  · exact ⟨heq, Function.update_of_ne heq ..⟩

section Keeping

variable {lfd slot : Nat} {slots : Nat → MyEvent} {k k' : Kernel}

theorem Table.registered_fd (h : Table lfd slots k) (hstatus : (slots slot).status = true) :
    k.registered (slots slot).fd = some (slot, (slots slot).events) :=
  (h.registered_iff _ _ _).mpr ⟨hstatus, rfl, rfl⟩

/-- Slots in use hold different descriptors. -/
theorem Table.fd_inj (h : Table lfd slots k) {i j : Nat} (hi : (slots i).status = true)
    (hj : (slots j).status = true) (heq : (slots i).fd = (slots j).fd) : i = j := by
  have hreg := h.registered_fd hi
  rw [heq, h.registered_fd hj] at hreg
  exact (congrArg Prod.fst (Option.some.inj hreg)).symm

/-- A descriptor that is not open is not registered. -/
theorem Table.not_registered (h : Table lfd slots k) {fd : Nat} (hnone : k.opened fd = none) :
    k.registered fd = none := by
  cases hreg : k.registered fd with
  | none => rfl
  | some reg =>
      obtain ⟨hstatus, hfd, -⟩ := (h.registered_iff fd reg.1 reg.2).mp hreg
      have hopen := h.isOpen _ hstatus
      rw [hfd, hnone] at hopen
      cases hopen

/-- A slot is given up and its descriptor deregistered. -/
theorem Table.drop (h : Table lfd slots k) (hlt : slot < maxEvents)
    (hstatus : (slots slot).status = true) {ev : MyEvent} (hev : ev.status = false)
    (hreg : k'.registered = update k.registered (slots slot).fd none)
    (hopened : ∀ fd, fd ≠ (slots slot).fd → k'.opened fd = k.opened fd) :
    Table lfd (update slots slot ev) k' := by
  have hother : ∀ j, (update slots slot ev j).status = true →
      j ≠ slot ∧ update slots slot ev j = slots j := fun j => status_update_false hev
  constructor
  case le_maxEvents =>
    intro j hj
    obtain ⟨-, hsame⟩ := hother j hj
    rw [hsame] at hj
    exact h.le_maxEvents j hj
  case isOpen =>
    intro j hj
    obtain ⟨hne, hsame⟩ := hother j hj
    rw [hsame] at hj ⊢
    rw [hopened _ fun heq => hne (h.fd_inj hj hstatus heq)]
    exact h.isOpen j hj
  case registered_iff =>
    intro fd j mask
    rw [hreg]
    by_cases hfd : fd = (slots slot).fd
    · rw [hfd, Function.update_self]
      refine ⟨fun hnone => (nomatch hnone), ?_⟩
      rintro ⟨hj, hjfd, -⟩
      obtain ⟨hne, hsame⟩ := hother j hj
      rw [hsame] at hj hjfd
      exact absurd (h.fd_inj hj hstatus hjfd) hne
    · rw [Function.update_of_ne hfd, h.registered_iff]
      by_cases hj : j = slot
      · subst hj
        rw [Function.update_self, hev]
        exact ⟨fun hold => absurd hold.2.1.symm hfd, fun hnew => (nomatch hnew.1)⟩
      · rw [Function.update_of_ne hj]
  case listening =>
    rw [Function.update_of_ne (Nat.ne_of_gt hlt)]
    exact h.listening
  case serving =>
    intro j hjlt hj
    obtain ⟨-, hsame⟩ := hother j hj
    rw [hsame] at hj ⊢
    exact h.serving j hjlt hj

/-- A free slot is taken for an open descriptor that is not registered. -/
theorem Table.take (h : Table lfd slots k) (hlt : slot < maxEvents)
    (hfree : (slots slot).status = false) {ev : MyEvent} (hev : ev.status = true)
    (hserving : Serving slot ev) (hopen : (k.opened ev.fd).isSome = true)
    (hnone : k.registered ev.fd = none) :
    Table lfd (update slots slot ev) (Kernel.ctlAdd ev.fd slot ev.events k) := by
  rw [Kernel.ctlAdd, if_pos ⟨hopen, hnone⟩]
  constructor
  case le_maxEvents =>
    intro j hj
    by_cases heq : j = slot
    · rw [heq]
      exact Nat.le_of_lt hlt
    · rw [Function.update_of_ne heq] at hj
      exact h.le_maxEvents j hj
  case isOpen =>
    intro j hj
    by_cases heq : j = slot
    · rw [heq, Function.update_self]
      exact hopen
    · rw [Function.update_of_ne heq] at hj ⊢
      exact h.isOpen j hj
  case registered_iff =>
    intro fd j mask
    dsimp only
    by_cases hfd : fd = ev.fd
    · rw [hfd, Function.update_self]
      by_cases hj : j = slot
      · rw [hj, Function.update_self, Option.some.injEq, Prod.mk.injEq]
        exact ⟨fun heq => ⟨hev, rfl, heq.2⟩, fun heq => ⟨rfl, heq.2.2⟩⟩
      · rw [Function.update_of_ne hj, ← h.registered_iff, hnone, Option.some.injEq, Prod.mk.injEq]
        exact ⟨fun heq => absurd heq.1.symm hj, fun heq => (nomatch heq)⟩
    · rw [Function.update_of_ne hfd, h.registered_iff]
      by_cases hj : j = slot
      · rw [hj, Function.update_self, hfree]
        exact ⟨fun hold => (nomatch hold.1), fun hnew => absurd hnew.2.1.symm hfd⟩
      · rw [Function.update_of_ne hj]
  case listening =>
    rw [Function.update_of_ne (Nat.ne_of_gt hlt)]
    exact h.listening
  case serving =>
    intro j hjlt hj
    by_cases heq : j = slot
    · rw [heq, Function.update_self]
      exact hserving
    · rw [Function.update_of_ne heq] at hj ⊢
      exact h.serving j hjlt hj

/-- `accept` opens a descriptor that no slot holds. -/
theorem Table.accept (h : Table lfd slots k) (fd conn next : Nat) :
    Table lfd slots { k with opened := update k.opened fd (some conn), next } := by
  refine ⟨h.le_maxEvents, ?_, h.registered_iff, h.listening, h.serving⟩
  intro j hj
  by_cases heq : (slots j).fd = fd
  · dsimp only
    rw [heq, Function.update_self]
    rfl
  · dsimp only
    rw [Function.update_of_ne heq]
    exact h.isOpen j hj

/-- A slot in use changes its role. -/
theorem Table.switch (h : Table lfd slots k) (hlt : slot < maxEvents)
    (hstatus : (slots slot).status = true) {ev : MyEvent} (hev : ev.status = true)
    (hfd : ev.fd = (slots slot).fd) (hserving : Serving slot ev) :
    Table lfd (update slots slot ev) (Kernel.ctlAdd (slots slot).fd slot ev.events
      (Kernel.ctlDel (slots slot).fd k)) := by
  have hdrop : Table lfd (update slots slot { slots slot with status := false })
      (Kernel.ctlDel (slots slot).fd k) := h.drop hlt hstatus rfl rfl fun _ _ => rfl
  have htake := hdrop.take hlt (by rw [Function.update_self]) hev hserving
    (by rw [hfd]; exact h.isOpen slot hstatus)
    (by rw [hfd]; exact Function.update_self ..)
  rw [Function.update_idem, hfd] at htake
  exact htake

end Keeping

-- ============================================================================
-- Steps
-- ============================================================================

section Steps

variable {clients : Clients} {lfd slot : Nat} {s s' : Server} {i : Input}

theorem Effect.table (he : Effect clients s slot i s') (h : Table lfd s.slots s.kernel)
    (hstatus : (s.slots slot).status = true) : Table lfd s'.slots s'.kernel := by
  cases he with
  | nobody => exact h
  | stray _ fd => exact h.accept fd _ _
  | joined _ fd hfd free hlt hfree =>
      have hopened := h.accept fd s.kernel.next (s.kernel.next + 1)
      refine hopened.take hlt hfree rfl ⟨rfl, .inl ⟨rfl, rfl⟩⟩ ?_ (h.not_registered hfd)
      show (update s.kernel.opened fd (some s.kernel.next) fd).isSome = true
      rw [Function.update_self]
      rfl
  | received hlt => exact h.switch hlt hstatus rfl rfl ⟨rfl, .inr ⟨rfl, rfl⟩⟩
  | answered hlt => exact h.switch hlt hstatus rfl rfl ⟨rfl, .inl ⟨rfl, rfl⟩⟩
  | closed hlt | cut hlt =>
      refine h.drop hlt hstatus rfl ?_ fun fd hne => Function.update_of_ne hne ..
      exact Function.update_idem ..

/-- Other slots in use stay as they are. -/
theorem Effect.others (he : Effect clients s slot i s') {j : Nat} (hne : j ≠ slot)
    (hstatus : (s.slots j).status = true) : s'.slots j = s.slots j := by
  cases he with
  | nobody | stray => rfl
  | joined _ _ _ free _ hfree =>
      have hj : j ≠ free := by
        intro heq
        rw [heq, hfree] at hstatus
        cases hstatus
      exact Function.update_of_ne hj ..
  | received | closed | answered | cut => exact Function.update_of_ne hne ..

theorem Effect.checkpos (he : Effect clients s slot i s') : s'.checkpos = s.checkpos := by
  cases he <;> rfl

theorem Pending.tail {slots : Nat → MyEvent} {e : Nat × UInt32} {batch : List (Nat × UInt32)}
    (h : Pending slots (e :: batch)) : Pending slots batch :=
  ⟨fun e' he' => h.status e' (List.mem_cons_of_mem _ he'),
    fun e' he' => h.wanted e' (List.mem_cons_of_mem _ he'), (List.pairwise_cons.mp h.distinct).2⟩

theorem Pending.effect {batch : List (Nat × UInt32)} (h : Pending s.slots batch)
    (he : Effect clients s slot i s') (hne : ∀ e ∈ batch, slot ≠ e.1) : Pending s'.slots batch := by
  have hsame : ∀ e ∈ batch, s'.slots e.1 = s.slots e.1 :=
    fun e hmem => he.others (hne e hmem).symm (h.status e hmem)
  refine ⟨?_, ?_, h.distinct⟩
  · intro e hmem
    rw [hsame e hmem]
    exact h.status e hmem
  · intro e hmem
    rw [hsame e hmem]
    exact h.wanted e hmem

/-- What `epoll_wait` returns. -/
theorem Table.wait (h : Table lfd s.slots s.kernel) (ready : List (Nat × UInt32)) :
    Pending s.slots (s.kernel.wait ready) := by
  have hmem : ∀ e ∈ s.kernel.wait ready, ∃ event reg, s.kernel.registered event = some reg ∧
      e.1 = reg.1 ∧ ∃ bits, e.2 = bits &&& (reg.2 ||| (epollErr ||| epollHup)) := by
    intro e he
    obtain ⟨event, -, hmap⟩ := List.mem_filterMap.mp he
    obtain ⟨reg, hreg, rfl⟩ := Option.map_eq_some_iff.mp hmap
    exact ⟨event.1, reg, hreg, rfl, event.2, rfl⟩
  constructor
  case status =>
    intro e he
    obtain ⟨fd, reg, hreg, hslot, -⟩ := hmem e he
    rw [hslot]
    exact ((h.registered_iff fd reg.1 reg.2).mp hreg).1
  case wanted =>
    intro e he
    obtain ⟨fd, reg, hreg, hslot, bits, hbits⟩ := hmem e he
    rw [hslot, ((h.registered_iff fd reg.1 reg.2).mp hreg).2.2]
    exact ⟨bits, hbits⟩
  case distinct =>
    refine (List.pairwise_filterMap).mpr ((List.pairwise_pwFilter ready).imp ?_)
    intro a b hne e he e' he' heq
    obtain ⟨reg, hreg, rfl⟩ := Option.map_eq_some_iff.mp he
    obtain ⟨reg', hreg', rfl⟩ := Option.map_eq_some_iff.mp he'
    obtain ⟨-, hfd, -⟩ := (h.registered_iff a.1 reg.1 reg.2).mp hreg
    obtain ⟨-, hfd', -⟩ := (h.registered_iff b.1 reg'.1 reg'.2).mp hreg'
    apply hne
    rw [← hfd, ← hfd']
    exact congrArg (fun slot => (s.slots slot).fd) heq

/-- A slot that waits for input waits for nothing else. -/
theorem Table.events_eq_in (h : Table lfd s.slots s.kernel)
    (hstatus : (s.slots slot).status = true) (hin : (s.slots slot).events &&& epollIn ≠ 0) :
    (s.slots slot).events = epollIn := by
  rcases Nat.lt_or_eq_of_le (h.le_maxEvents slot hstatus) with hlt | rfl
  · rcases (h.serving slot hlt hstatus).phase with ⟨-, heq⟩ | ⟨-, heq⟩
    · exact heq
    · rw [heq] at hin
      exact absurd (by decide) hin
  · exact h.listening.events

theorem in_and_out (bits : UInt32) :
    bits &&& (epollIn ||| (epollErr ||| epollHup)) &&& epollOut = 0 := by
  have hconst : (epollIn ||| (epollErr ||| epollHup)) &&& epollOut = 0 := by decide
  rw [UInt32.and_assoc, hconst, UInt32.and_zero]

/-- The slot that a turn of the scan looks at. -/
def scanPos (checkpos : Nat) : Nat := if checkpos = maxEvents then 0 else checkpos

theorem scanTurn_eq (s : Server) :
    s.scanTurn = if (s.slots (scanPos s.checkpos)).status ∧
        60 ≤ s.now - (s.slots (scanPos s.checkpos)).lastActive then
      (Server.setKernel (Kernel.close (s.slots (scanPos s.checkpos)).fd)
        { s with checkpos := scanPos s.checkpos + 1 }).eventdel (scanPos s.checkpos)
      else { s with checkpos := scanPos s.checkpos + 1 } := by
  rw [Server.scanTurn, scanPos]
  by_cases heq : s.checkpos = maxEvents
  · simp only [if_pos heq, Nat.add_sub_cancel]
  · simp only [if_neg heq, Nat.add_sub_cancel]

/-- A turn of the scan passes over a slot or times its connection out. -/
theorem scanTurn_cases (hle : s.checkpos ≤ maxEvents) :
    ∃ pos < maxEvents, s.scanTurn = { s with checkpos := pos + 1 } ∨
      (s.slots pos).status = true ∧ s.scanTurn = { s with
        checkpos := pos + 1
        slots := update s.slots pos { s.slots pos with status := false }
        kernel := Kernel.ctlDel (s.slots pos).fd (Kernel.close (s.slots pos).fd s.kernel) } := by
  have hpos : scanPos s.checkpos < maxEvents := by
    rw [scanPos]
    split
    · decide
    · omega
  refine ⟨scanPos s.checkpos, hpos, ?_⟩
  rw [scanTurn_eq]
  split
  · next h => exact .inr ⟨h.1, Server.eventdel_of_status (by exact h.1)⟩
  · exact .inl rfl

theorem Turn.table (ht : Turn clients s i s') (h : Table lfd s.slots s.kernel) :
    Table lfd s'.slots s'.kernel := by
  cases ht with
  | quiet hslots hkernel =>
      rw [hslots, hkernel]
      exact h
  | timeout pos hlt hstatus hslots hkernel =>
      rw [hslots, hkernel]
      refine h.drop hlt hstatus rfl ?_ fun fd hne => Function.update_of_ne hne ..
      exact Function.update_idem ..
  | event slot hstatus s'' he hslots hkernel =>
      rw [hslots, hkernel]
      exact he.table h hstatus

/-- A turn of the scan, whatever `now` and the control are. -/
theorem scanTurn_turn (clients : Clients) (i : Input) (hle : s.checkpos ≤ maxEvents) (now : Int)
    (control : Control) :
    Turn clients s i { Server.scanTurn { s with now } with control } ∧
      (Server.scanTurn { s with now }).checkpos ≤ maxEvents := by
  obtain ⟨pos, hpos, heq | ⟨hstatus, heq⟩⟩ := scanTurn_cases (s := { s with now }) hle
  · rw [heq]
    exact ⟨.quiet rfl rfl rfl, hpos⟩
  · rw [heq]
    exact ⟨.timeout pos hpos hstatus rfl rfl rfl, hpos⟩

/-- The clock is read in the first turn of a scan and kept in the others. -/
theorem exists_now (s : Server) (n : Nat) (i : Input) :
    ∃ now, (if n = 0 then { s with now := i.time } else s) = { s with now } := by
  by_cases hn : n = 0
  · exact ⟨i.time, if_pos hn⟩
  · exact ⟨s.now, if_neg hn⟩

/-- Every step keeps the invariant and makes a turn; none calls through NULL. -/
theorem TableInv.step (h : TableInv lfd s) (clients : Clients) (i : Input) :
    Ends (fun s' => TableInv lfd s' ∧ Turn clients s i s') (fun _ => False) (s.step clients i) := by
  obtain ⟨htable, hbatch, hpos⟩ := h
  rw [Server.step]
  split
  case h_1 n hcontrol =>
    obtain ⟨now, hnow⟩ := exists_now s n i
    simp only [hnow]
    split
    · obtain ⟨hturn, hle⟩ := scanTurn_turn clients i hpos now (.scan (n + 1))
      exact ⟨⟨hturn.table htable, trivial, hle⟩, hturn⟩
    · exact ⟨⟨htable, trivial, hpos⟩, .quiet rfl rfl rfl⟩
  case h_2 hcontrol =>
    split
    · exact ⟨⟨htable, trivial, hpos⟩, .quiet rfl rfl rfl⟩
    · next ready _ => exact ⟨⟨htable, htable.wait ready, hpos⟩, .quiet rfl rfl rfl⟩
  case h_3 => exact ⟨⟨htable, trivial, hpos⟩, .quiet rfl rfl rfl⟩
  case h_4 slot bits batch hcontrol =>
    rw [hcontrol] at hbatch
    have hstatus : (s.slots slot).status = true := hbatch.status _ (List.mem_cons_self ..)
    have hne : ∀ e ∈ batch, slot ≠ e.1 := (List.pairwise_cons.mp hbatch.distinct).1
    split
    · next htest =>
      obtain ⟨s', hs', he⟩ := htable.callBack clients hstatus i
      have hrest := hbatch.tail.effect he hne
      rw [hs']
      refine ⟨⟨he.table htable hstatus, ⟨hrest, hne, .inl ?_⟩, ?_⟩,
        .event slot hstatus s' he rfl rfl rfl⟩
      · -- the callback ran on EPOLLIN, so EPOLLOUT was not asked for
        obtain ⟨b, hb⟩ := hbatch.wanted _ (List.mem_cons_self ..)
        rw [htable.events_eq_in hstatus htest.2] at hb
        have hout := in_and_out b
        rwa [← hb] at hout
      · rw [he.checkpos]
        exact hpos
    · exact ⟨⟨htable, ⟨hbatch.tail, hne, .inr hstatus⟩, hpos⟩, .quiet rfl rfl rfl⟩
  case h_5 slot bits batch hcontrol =>
    rw [hcontrol] at hbatch
    obtain ⟨hbatch, hne, hready⟩ := hbatch
    split
    · next htest =>
      have hstatus := hready.resolve_left htest.1
      obtain ⟨s', hs', he⟩ := htable.callBack clients hstatus i
      have hrest := hbatch.effect he hne
      rw [hs']
      refine ⟨⟨he.table htable hstatus, hrest, ?_⟩, .event slot hstatus s' he rfl rfl rfl⟩
      rw [he.checkpos]
      exact hpos
    · exact ⟨⟨htable, hbatch, hpos⟩, .quiet rfl rfl rfl⟩
  case h_6 hcontrol => exact ⟨⟨htable, hbatch, hpos⟩, .quiet rfl rfl rfl⟩

end Steps

-- ============================================================================
-- Runs
-- ============================================================================

/-- After `initlistensocket` only the slot of the listening socket is in use. -/
theorem tableInv_start (lfd : Nat) (isOpen : Nat → Bool) (time : Int) :
    TableInv lfd (Server.start lfd isOpen time) := by
  have honly : ∀ (ev : MyEvent) (j : Nat),
      (update (fun _ => MyEvent.zero) maxEvents ev j).status = true → j = maxEvents := by
    intro ev j hj
    by_contra hne
    rw [Function.update_of_ne hne] at hj
    cases hj
  have hopen : (update (fun fd => if isOpen fd then some 0 else none) lfd (some 0) lfd).isSome
      = true := by
    rw [Function.update_self]
    rfl
  rw [Server.start, Server.eventadd_eventset, Kernel.ctlAdd, if_pos ⟨hopen, rfl⟩]
  refine ⟨?_, trivial, Nat.zero_le _⟩
  constructor
  case le_maxEvents =>
    intro j hj
    exact Nat.le_of_eq (honly _ j hj)
  case isOpen =>
    intro j hj
    dsimp only at hj ⊢
    rw [honly _ j hj, Function.update_self]
    exact hopen
  case registered_iff =>
    intro fd j mask
    dsimp only
    by_cases hfd : fd = lfd
    · rw [hfd, Function.update_self, Option.some.injEq, Prod.mk.injEq]
      refine ⟨?_, ?_⟩
      · rintro ⟨rfl, rfl⟩
        rw [Function.update_self]
        exact ⟨rfl, rfl, rfl⟩
      · rintro ⟨hj, -, hmask⟩
        have hmax := honly _ j hj
        rw [hmax, Function.update_self] at hmask
        exact ⟨hmax.symm, hmask⟩
    · rw [Function.update_of_ne hfd]
      refine ⟨fun hnone => (nomatch hnone), ?_⟩
      rintro ⟨hj, hjfd, -⟩
      rw [honly _ j hj, Function.update_self] at hjfd
      exact absurd hjfd.symm hfd
  case listening =>
    dsimp only
    rw [Function.update_self]
    exact ⟨rfl, rfl, rfl, rfl⟩
  case serving =>
    intro j hlt hj
    exact absurd (honly _ j hj) (Nat.ne_of_lt hlt)

theorem tableInv_run (clients : Clients) (lfd : Nat) (isOpen : Nat → Bool) (time : Int)
    (inputs : List Input) :
    Ends (TableInv lfd) (fun _ => False) (Server.run clients lfd isOpen time inputs) :=
  runSteps_keeps (fun _ i h => (h.step clients i).mono (fun _ hs' => hs'.1) fun _ hf => hf)
    (tableInv_start lfd isOpen time) inputs

/-- The table as a reader of `Reactor.c` expects it. -/
structure SlotTable (lfd : Nat) (s : Server) : Prop where
  distinct : ∀ j ≤ maxEvents, ∀ k ≤ maxEvents, (s.slots j).status = true →
    (s.slots k).status = true → j ≠ k → (s.slots j).fd ≠ (s.slots k).fd
  isOpen : ∀ k ≤ maxEvents, (s.slots k).status = true →
    (s.kernel.opened (s.slots k).fd).isSome = true
  registered : ∀ k ≤ maxEvents, (s.slots k).status = true →
    s.kernel.registered (s.slots k).fd = some (k, (s.slots k).events)
  inUse : ∀ fd k mask, s.kernel.registered fd = some (k, mask) →
    k ≤ maxEvents ∧ (s.slots k).status = true
  listening : (s.slots maxEvents).fd = lfd ∧ (s.slots maxEvents).status = true

theorem TableInv.slotTable {lfd : Nat} {s : Server} (h : TableInv lfd s) : SlotTable lfd s := by
  obtain ⟨htable, -, -⟩ := h
  constructor
  case distinct =>
    intro j _ k _ hj hk hne heq
    exact hne (htable.fd_inj hj hk heq)
  case isOpen =>
    intro k _ hk
    exact htable.isOpen k hk
  case registered =>
    intro k _ hk
    exact htable.registered_fd hk
  case inUse =>
    intro fd k mask hreg
    obtain ⟨hstatus, -, -⟩ := (htable.registered_iff fd k mask).mp hreg
    exact ⟨htable.le_maxEvents k hstatus, hstatus⟩
  case listening => exact ⟨htable.listening.fd, htable.listening.status⟩

/-- Every run of the server keeps its slot table. -/
theorem slotTable_run (clients : Clients) (lfd : Nat) (isOpen : Nat → Bool) (time : Int)
    (inputs : List Input) :
    ∃ s, Server.run clients lfd isOpen time inputs = .ok s ∧ SlotTable lfd s := by
  obtain ⟨s, hrun, hinv⟩ := (tableInv_run clients lfd isOpen time inputs).exists_ok
  exact ⟨s, hrun, hinv.slotTable⟩

end LinuxCodeDemos.Reactor

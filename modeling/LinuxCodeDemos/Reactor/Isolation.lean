/-
  LinuxCodeDemos.Reactor.Isolation

  No data crosses connections in the Reactor server.

  - `Served`: every `send` offers the bytes of the latest `recv` on the same
    connection, and there is one `recv` for each `send`.  `eventset` leaves `buf`
    and `len` alone when a slot changes hands, so this rests on `Holds`: a slot in
    the role of `senddata` has been filled by its own connection.
  - `Server.blank` forgets all bytes.  A step without its bytes depends on the
    server without its bytes only (`blank_step`), so that two runs that differ in
    what clients send make the same calls in the same order.
-/

import LinuxCodeDemos.Reactor.Table

namespace LinuxCodeDemos.Reactor

open Lib
open Function (update)

-- ============================================================================
-- Definitions
-- ============================================================================

/-- The bytes of the latest `recv` on a connection. -/
def latestRecv (conn : Nat) : List Traffic → Option (List UInt8)
  | [] => none
  | .recv c bytes :: log => if c = conn then some bytes else latestRecv conn log
  | .send _ _ :: log => latestRecv conn log

/-- Every `send` offers the bytes of the latest `recv` on its connection. -/
def Echoes : List Traffic → Prop
  | [] => True
  | .recv _ _ :: log => Echoes log
  | .send conn bytes :: log => latestRecv conn log = some bytes ∧ Echoes log

/-- What is offered to a connection, in order. -/
def sentOn (conn : Nat) (log : List Traffic) : List (List UInt8) :=
  log.reverse.filterMap fun t => match t with
    | .recv _ _ => none
    | .send c bytes => if c = conn then some bytes else none

/-- The log of a server that answers every chunk at most once. -/
def Served (clients : Clients) : List Traffic → Prop
  | [] => True
  | .recv conn bytes :: log =>
      bytes = (clients conn (Server.chunksRead conn log)).bytes ∧ Served clients log
  | .send conn bytes :: log =>
      latestRecv conn log = some bytes ∧
        Server.chunksRead conn log = (sentOn conn log).length + 1 ∧ Served clients log

/-- What a slot in use holds for its connection. -/
def Holds (log : List Traffic) (conn : Nat) (ev : MyEvent) : Prop :=
  match ev.callBack with
  | some .recvdata => Server.chunksRead conn log = (sentOn conn log).length
  | some .senddata =>
      latestRecv conn log = some (ev.buf.take ev.len) ∧
        Server.chunksRead conn log = (sentOn conn log).length + 1
  | _ => False

/-- The invariant of the loop: connections have one descriptor each, and the slots
    hold nothing of other connections. -/
structure Isolation (clients : Clients) (slots : Nat → MyEvent) (k : Kernel) (log : List Traffic) :
    Prop where
  served : Served clients log
  next_pos : 0 < k.next
  lt_next : ∀ fd conn, k.opened fd = some conn → conn < k.next
  unused : ∀ conn, k.next ≤ conn → Server.chunksRead conn log = 0 ∧ sentOn conn log = []
  single : ∀ fd fd' conn, k.opened fd = some conn → k.opened fd' = some conn → 0 < conn → fd = fd'
  holds : ∀ slot < maxEvents, (slots slot).status = true → ∀ conn,
    k.opened (slots slot).fd = some conn → 0 < conn ∧ Holds log conn (slots slot)

def Traffic.conn : Traffic → Nat
  | .recv conn _ => conn
  | .send conn _ => conn

/-- The traffic without its bytes. -/
def Traffic.blank : Traffic → Traffic
  | .recv conn _ => .recv conn []
  | .send conn _ => .send conn []

def MyEvent.blank (ev : MyEvent) : MyEvent := { ev with buf := [], len := 0 }

/-- The server without its bytes. -/
def Server.blank (s : Server) : Server :=
  { s with slots := fun slot => (s.slots slot).blank, log := s.log.map Traffic.blank }

-- ============================================================================
-- The log
-- ============================================================================

section Log

variable {clients : Clients} {conn d : Nat} {bytes : List UInt8} {log : List Traffic}

@[simp] theorem chunksRead_recv_self :
    Server.chunksRead conn (.recv conn bytes :: log) = Server.chunksRead conn log + 1 := by
  simp [Server.chunksRead]

@[simp] theorem chunksRead_send :
    Server.chunksRead conn (.send d bytes :: log) = Server.chunksRead conn log := by
  simp [Server.chunksRead]

@[simp] theorem sentOn_recv : sentOn conn (.recv d bytes :: log) = sentOn conn log := by
  simp [sentOn]

@[simp] theorem sentOn_send_self :
    sentOn conn (.send conn bytes :: log) = sentOn conn log ++ [bytes] := by
  simp [sentOn]

@[simp] theorem latestRecv_recv_self : latestRecv conn (.recv conn bytes :: log) = some bytes :=
  if_pos rfl

/-- Traffic of another connection changes nothing. -/
theorem other_traffic {t : Traffic} (hne : conn ≠ t.conn) (log : List Traffic) :
    Server.chunksRead conn (t :: log) = Server.chunksRead conn log ∧
      sentOn conn (t :: log) = sentOn conn log ∧
      latestRecv conn (t :: log) = latestRecv conn log := by
  cases t with
  | recv d bytes =>
      have hd : d ≠ conn := hne.symm
      exact ⟨by simp [Server.chunksRead, hd], sentOn_recv, if_neg hd⟩
  | send d bytes =>
      have hd : d ≠ conn := hne.symm
      exact ⟨chunksRead_send, by simp [sentOn, hd], rfl⟩

theorem Served.echoes (h : Served clients log) : Echoes log := by
  induction log with
  | nil => trivial
  | cons t log ih =>
      cases t with
      | recv d bytes => exact ih h.2
      | send d bytes => exact ⟨h.1, ih h.2.2⟩

/-- The latest chunk is the last one that was read. -/
theorem Served.latestRecv (h : Served clients log) (hlatest : latestRecv conn log = some bytes) :
    bytes = (clients conn (Server.chunksRead conn log - 1)).bytes := by
  induction log with
  | nil => cases hlatest
  | cons t log ih =>
      by_cases hconn : conn = t.conn
      · cases t with
        | recv d b =>
            obtain rfl : conn = d := hconn
            rw [latestRecv_recv_self, Option.some.injEq] at hlatest
            rw [chunksRead_recv_self, Nat.add_sub_cancel, ← hlatest]
            exact h.1
        | send d b =>
            rw [chunksRead_send]
            exact ih h.2.2 hlatest
      · obtain ⟨hread, -, hsame⟩ := other_traffic hconn log
        rw [hread]
        rw [hsame] at hlatest
        cases t with
        | recv d b => exact ih h.2 hlatest
        | send d b => exact ih h.2.2 hlatest

/-- What is offered to a connection are its own first chunks. -/
theorem Served.sentOn (h : Served clients log) (conn : Nat) :
    sentOn conn log
      = (List.range (sentOn conn log).length).map fun n => (clients conn n).bytes := by
  induction log with
  | nil => rfl
  | cons t log ih =>
      by_cases hconn : conn = t.conn
      · cases t with
        | recv d b =>
            rw [sentOn_recv]
            exact ih h.2
        | send d b =>
            obtain rfl : conn = d := hconn
            obtain ⟨hlatest, hread, hrest⟩ := h
            have hb := hrest.latestRecv hlatest
            rw [hread, Nat.add_sub_cancel] at hb
            rw [sentOn_send_self, List.length_append, List.length_singleton, List.range_succ,
              List.map_append, ← ih hrest, hb]
            rfl
      · obtain ⟨-, hsame, -⟩ := other_traffic hconn log
        rw [hsame]
        cases t with
        | recv d b => exact ih h.2
        | send d b => exact ih h.2.2

theorem Holds.other {t : Traffic} (hne : conn ≠ t.conn) {ev : MyEvent} (h : Holds log conn ev) :
    Holds (t :: log) conn ev := by
  obtain ⟨hread, hsent, hlatest⟩ := other_traffic hne log
  simp only [Holds, hread, hsent, hlatest]
  exact h

end Log

/-- `ev->len` bytes of `ev->buf` are what `recv` returned. -/
theorem take_fillBuf {bytes : List UInt8} (h : bytes.length ≤ bufLen) (ev : MyEvent) :
    (Server.fillBuf bytes ev).buf.take (Server.fillBuf bytes ev).len = bytes := by
  rw [Server.fillBuf]
  split
  · next hlt => simp [splice]
  · next hge =>
    have hlen : bytes.length = bufLen := by omega
    simp [splice, hlen, bufLen]

-- ============================================================================
-- The slots
-- ============================================================================

section Keeping

variable {clients : Clients} {slots slots' : Nat → MyEvent} {k k' : Kernel} {log : List Traffic}

/-- Slots are given up and descriptors closed. -/
theorem Isolation.restrict (h : Isolation clients slots k log) (hnext : k'.next = k.next)
    (hopened : ∀ fd conn, k'.opened fd = some conn → k.opened fd = some conn)
    (hslots : ∀ slot, (slots' slot).status = true → slots' slot = slots slot) :
    Isolation clients slots' k' log := by
  constructor
  case served => exact h.served
  case next_pos =>
    rw [hnext]
    exact h.next_pos
  case lt_next =>
    intro fd conn hconn
    rw [hnext]
    exact h.lt_next fd conn (hopened fd conn hconn)
  case unused =>
    rw [hnext]
    exact h.unused
  case single =>
    intro fd fd' conn hfd hfd'
    exact h.single fd fd' conn (hopened fd conn hfd) (hopened fd' conn hfd')
  case holds =>
    intro slot hlt hstatus conn hconn
    have hsame := hslots slot hstatus
    rw [hsame] at hstatus hconn ⊢
    exact h.holds slot hlt hstatus conn (hopened _ conn hconn)

/-- A new connection, on a descriptor that no slot holds. -/
theorem Isolation.accept (h : Isolation clients slots k log) {fd : Nat}
    (hfree : ∀ slot, (slots slot).status = true → (slots slot).fd ≠ fd) :
    Isolation clients slots
      { k with opened := update k.opened fd (some k.next), next := k.next + 1 } log := by
  -- the connection behind a descriptor is an old one or the new one
  have hcases : ∀ fd' conn, update k.opened fd (some k.next) fd' = some conn →
      fd' = fd ∧ conn = k.next ∨ fd' ≠ fd ∧ k.opened fd' = some conn := by
    intro fd' conn hconn
    by_cases heq : fd' = fd
    · rw [heq, Function.update_self] at hconn
      exact .inl ⟨heq, (Option.some.inj hconn).symm⟩
    · rw [Function.update_of_ne heq] at hconn
      exact .inr ⟨heq, hconn⟩
  constructor
  case served => exact h.served
  case next_pos => exact Nat.succ_pos _
  case lt_next =>
    intro fd' conn hconn
    rcases hcases fd' conn hconn with ⟨-, hnew⟩ | ⟨-, hold⟩
    · rw [hnew]
      exact Nat.lt_succ_self _
    · exact Nat.lt_succ_of_lt (h.lt_next fd' conn hold)
  case unused =>
    intro conn hle
    exact h.unused conn (Nat.le_of_succ_le hle)
  case single =>
    intro fd₁ fd₂ conn h₁ h₂ hpos
    rcases hcases fd₁ conn h₁ with ⟨heq₁, hnew₁⟩ | ⟨-, hold₁⟩ <;>
      rcases hcases fd₂ conn h₂ with ⟨heq₂, hnew₂⟩ | ⟨-, hold₂⟩
    · rw [heq₁, heq₂]
    · exact absurd hnew₁ (Nat.ne_of_lt (h.lt_next fd₂ conn hold₂))
    · exact absurd hnew₂ (Nat.ne_of_lt (h.lt_next fd₁ conn hold₁))
    · exact h.single fd₁ fd₂ conn hold₁ hold₂ hpos
  case holds =>
    intro slot hlt hstatus conn hconn
    rcases hcases _ conn hconn with ⟨heq, -⟩ | ⟨-, hold⟩
    · exact absurd heq (hfree slot hstatus)
    · exact h.holds slot hlt hstatus conn hold

/-- A slot is taken for a connection that it holds nothing of yet. -/
theorem Isolation.take (h : Isolation clients slots k log) {slot conn : Nat} {ev : MyEvent}
    (hconn : k.opened ev.fd = some conn) (hpos : 0 < conn) (hholds : Holds log conn ev)
    (hnext : k'.next = k.next) (hopened : k'.opened = k.opened) :
    Isolation clients (update slots slot ev) k' log := by
  have hsame : Isolation clients slots k' log :=
    h.restrict hnext (fun fd conn hfd => by rwa [hopened] at hfd) fun _ _ => rfl
  refine { hsame with holds := ?_ }
  intro j hlt hstatus c hc
  by_cases heq : j = slot
  · rw [heq, Function.update_self] at hc ⊢
    rw [hopened, hconn, Option.some.injEq] at hc
    rw [← hc]
    exact ⟨hpos, hholds⟩
  · rw [Function.update_of_ne heq] at hstatus hc ⊢
    exact hsame.holds j hlt hstatus c hc

/-- Traffic on the connection of a slot, which then holds what it asks for. -/
theorem Isolation.exchange {lfd slot conn : Nat} (h : Isolation clients slots k log)
    (htable : Table lfd slots k) (hlt : slot < maxEvents) (hstatus : (slots slot).status = true)
    (hconn : k.opened (slots slot).fd = some conn) {t : Traffic} (ht : t.conn = conn)
    (hserved : Served clients (t :: log)) {ev : MyEvent} (hfd : ev.fd = (slots slot).fd)
    (hholds : Holds (t :: log) conn ev) (hnext : k'.next = k.next)
    (hopened : k'.opened = k.opened) :
    Isolation clients (update slots slot ev) k' (t :: log) := by
  constructor
  case served => exact hserved
  case next_pos =>
    rw [hnext]
    exact h.next_pos
  case lt_next =>
    rw [hnext, hopened]
    exact h.lt_next
  case unused =>
    intro c hle
    rw [hnext] at hle
    have hne : c ≠ t.conn := by
      have := h.lt_next _ _ hconn
      omega
    obtain ⟨hread, hsent, -⟩ := other_traffic hne log
    rw [hread, hsent]
    exact h.unused c hle
  case single =>
    rw [hopened]
    exact h.single
  case holds =>
    intro j hjlt hjstatus c hc
    obtain ⟨hpos, -⟩ := h.holds slot hlt hstatus conn hconn
    by_cases heq : j = slot
    · rw [heq, Function.update_self] at hc ⊢
      rw [hfd, hopened, hconn, Option.some.injEq] at hc
      rw [← hc]
      exact ⟨hpos, hholds⟩
    · rw [Function.update_of_ne heq] at hjstatus hc ⊢
      rw [hopened] at hc
      obtain ⟨hcpos, hcholds⟩ := h.holds j hjlt hjstatus c hc
      refine ⟨hcpos, hcholds.other ?_⟩
      intro hct
      rw [ht] at hct
      rw [hct] at hc hcpos
      exact heq (htable.fd_inj hjstatus hstatus (h.single _ _ conn hc hconn hcpos))

end Keeping

@[simp] theorem Kernel.ctlAdd_opened (fd slot : Nat) (events : UInt32) (k : Kernel) :
    (Kernel.ctlAdd fd slot events k).opened = k.opened := by
  rw [Kernel.ctlAdd]
  split <;> rfl

@[simp] theorem Kernel.ctlAdd_next (fd slot : Nat) (events : UInt32) (k : Kernel) :
    (Kernel.ctlAdd fd slot events k).next = k.next := by
  rw [Kernel.ctlAdd]
  split <;> rfl

theorem Kernel.opened_of_close {fd fd' conn : Nat} {k : Kernel}
    (h : (Kernel.close fd k).opened fd' = some conn) : k.opened fd' = some conn := by
  change update k.opened fd none fd' = some conn at h
  by_cases heq : fd' = fd
  · rw [heq, Function.update_self] at h
    cases h
  · rwa [Function.update_of_ne heq] at h

section Steps

variable {clients : Clients} {lfd slot : Nat} {s s' : Server} {i : Input}

/-- A slot that is loaded gets rid of what it holds. -/
theorem Isolation.answer (h : Isolation clients s.slots s.kernel s.log)
    (htable : Table lfd s.slots s.kernel) (hlt : slot < maxEvents)
    (hstatus : (s.slots slot).status = true) (hcall : (s.slots slot).callBack = some .senddata)
    {conn : Nat} (hconn : s.kernel.opened (s.slots slot).fd = some conn) (time : Int) {k' : Kernel}
    (hnext : k'.next = s.kernel.next) (hopened : k'.opened = s.kernel.opened) :
    Isolation clients
      (update s.slots slot
        (MyEvent.switch (s.slots slot).fd .recvdata epollIn slot time (s.slots slot)))
      k' (.send conn ((s.slots slot).buf.take (s.slots slot).len) :: s.log) := by
  obtain ⟨-, hholds⟩ := h.holds slot hlt hstatus conn hconn
  rw [Holds, hcall] at hholds
  obtain ⟨hlatest, hread⟩ := hholds
  have hserved : Served clients
      (.send conn ((s.slots slot).buf.take (s.slots slot).len) :: s.log) :=
    ⟨hlatest, hread, h.served⟩
  refine h.exchange htable hlt hstatus hconn rfl hserved rfl ?_ hnext hopened
  show Server.chunksRead conn (.send conn _ :: s.log) = (sentOn conn (.send conn _ :: s.log)).length
  rw [chunksRead_send, sentOn_send_self, hread, List.length_append, List.length_singleton]

theorem Effect.isolation (he : Effect clients s slot i s')
    (h : Isolation clients s.slots s.kernel s.log) (htable : Table lfd s.slots s.kernel)
    (hstatus : (s.slots slot).status = true) : Isolation clients s'.slots s'.kernel s'.log := by
  have hnew : ∀ fd, s.kernel.opened fd = none → ∀ j, (s.slots j).status = true →
      (s.slots j).fd ≠ fd := by
    intro fd hfd j hj heq
    have hopen := htable.isOpen j hj
    rw [heq, hfd] at hopen
    cases hopen
  cases he with
  | nobody => exact h
  | stray _ fd hfd => exact h.accept (hnew fd hfd)
  | joined _ fd hfd free hlt hfree =>
      refine (h.accept (hnew fd hfd)).take (Function.update_self ..) h.next_pos ?_ ?_ ?_
      · obtain ⟨hread, hsent⟩ := h.unused _ (Nat.le_refl _)
        show Server.chunksRead _ s.log = (sentOn _ s.log).length
        rw [hread, hsent]
        rfl
      · exact Kernel.ctlAdd_next ..
      · exact Kernel.ctlAdd_opened ..
  | received hlt hcall conn hconn bytes hbytes =>
      obtain ⟨-, hholds⟩ := h.holds slot hlt hstatus conn hconn
      rw [Holds, hcall] at hholds
      have hserved : Served clients (.recv conn bytes :: s.log) := ⟨hbytes, h.served⟩
      refine h.exchange htable hlt hstatus hconn rfl hserved rfl ⟨?_, ?_⟩
        (Kernel.ctlAdd_next ..) (Kernel.ctlAdd_opened ..)
      · rw [latestRecv_recv_self, hbytes]
        exact congrArg some (take_fillBuf (Chunk.le_bufLen _) (s.slots slot)).symm
      · rw [chunksRead_recv_self, sentOn_recv, hholds]
  | closed =>
      refine h.restrict rfl (fun fd conn hopen => Kernel.opened_of_close hopen) ?_
      exact fun j hj => (status_update_false rfl hj).2
  | answered hlt hcall conn hconn =>
      exact h.answer htable hlt hstatus hcall hconn i.time (Kernel.ctlAdd_next ..)
        (Kernel.ctlAdd_opened ..)
  | cut hlt hcall conn hconn =>
      refine (h.answer htable hlt hstatus hcall hconn i.time rfl rfl).restrict rfl
        (fun fd conn hopen => Kernel.opened_of_close hopen) ?_
      intro j hj
      obtain ⟨hne, hsame⟩ := status_update_false rfl hj
      exact hsame.trans (Function.update_of_ne hne ..).symm

theorem Turn.isolation (ht : Turn clients s i s') (h : Isolation clients s.slots s.kernel s.log)
    (htable : Table lfd s.slots s.kernel) : Isolation clients s'.slots s'.kernel s'.log := by
  cases ht with
  | quiet hslots hkernel hlog =>
      rw [hslots, hkernel, hlog]
      exact h
  | timeout pos hlt hstatus hslots hkernel hlog =>
      rw [hslots, hkernel, hlog]
      refine h.restrict rfl (fun fd conn hopen => Kernel.opened_of_close hopen) ?_
      exact fun j hj => (status_update_false rfl hj).2
  | event slot hstatus s'' he hslots hkernel hlog =>
      rw [hslots, hkernel, hlog]
      exact he.isolation h htable hstatus

end Steps

/-- At the start nothing but the listening socket is in use, and everything open is
    connection 0. -/
theorem isolation_start (clients : Clients) (lfd : Nat) (isOpen : Nat → Bool) (time : Int) :
    Isolation clients (Server.start lfd isOpen time).slots (Server.start lfd isOpen time).kernel
      (Server.start lfd isOpen time).log := by
  have hzero : ∀ fd conn, (Server.start lfd isOpen time).kernel.opened fd = some conn →
      conn = 0 := by
    intro fd conn hconn
    rw [Server.start, Server.eventadd_eventset, Kernel.ctlAdd_opened] at hconn
    change update (fun fd => if isOpen fd then some 0 else none) lfd (some 0) fd = some conn at hconn
    by_cases heq : fd = lfd
    · rw [heq, Function.update_self] at hconn
      exact (Option.some.inj hconn).symm
    · rw [Function.update_of_ne heq] at hconn
      split at hconn
      · exact (Option.some.inj hconn).symm
      · cases hconn
  have hnext : (Server.start lfd isOpen time).kernel.next = 1 := by
    rw [Server.start, Server.eventadd_eventset]
    exact Kernel.ctlAdd_next ..
  have hlog : (Server.start lfd isOpen time).log = [] := by
    rw [Server.start, Server.eventadd_eventset]
  rw [hlog]
  constructor
  case served => trivial
  case next_pos =>
    rw [hnext]
    exact Nat.one_pos
  case lt_next =>
    intro fd conn hconn
    rw [hzero fd conn hconn, hnext]
    exact Nat.one_pos
  case unused => exact fun _ _ => ⟨rfl, rfl⟩
  case single =>
    intro fd _ conn hconn _ hpos
    exact absurd (hzero fd conn hconn) (Nat.ne_of_gt hpos)
  case holds =>
    intro slot hlt hstatus
    rw [Server.start, Server.eventadd_eventset] at hstatus
    dsimp only at hstatus
    rw [Function.update_of_ne (Nat.ne_of_lt hlt)] at hstatus
    cases hstatus

theorem isolation_run (clients : Clients) (lfd : Nat) (isOpen : Nat → Bool) (time : Int)
    (inputs : List Input) :
    ∃ s, Server.run clients lfd isOpen time inputs = .ok s ∧
      Isolation clients s.slots s.kernel s.log := by
  have hends : Ends (fun s => TableInv lfd s ∧ Isolation clients s.slots s.kernel s.log)
      (fun _ => False) (Server.run clients lfd isOpen time inputs) := by
    refine runSteps_keeps ?_
      ⟨tableInv_start lfd isOpen time, isolation_start clients lfd isOpen time⟩ inputs
    intro s i h
    exact (h.1.step clients i).mono (fun s' hs' => ⟨hs'.1, hs'.2.isolation h.2 h.1.table⟩)
      fun _ hf => hf
  obtain ⟨s, hrun, -, hisolation⟩ := hends.exists_ok
  exact ⟨s, hrun, hisolation⟩

-- ============================================================================
-- Two runs
-- ============================================================================

section Blank

variable {s s' : Server}

theorem kernel_eq_of_blank (h : s.blank = s'.blank) : s.kernel = s'.kernel := by
  show s.blank.kernel = s'.blank.kernel
  rw [h]

theorem slot_eq_of_blank (h : s.blank = s'.blank) (slot : Nat) :
    (s.slots slot).blank = (s'.slots slot).blank := by
  show s.blank.slots slot = s'.blank.slots slot
  rw [h]

theorem blank_setSlot (slot : Nat) {f g : MyEvent → MyEvent}
    (h : ∀ ev, (f ev).blank = g ev.blank) : (s.setSlot slot f).blank = s.blank.setSlot slot g := by
  have hslots : (fun j => (update s.slots slot (f (s.slots slot)) j).blank)
      = update (fun j => (s.slots j).blank) slot (g (s.slots slot).blank) := by
    funext j
    by_cases heq : j = slot
    · rw [heq, Function.update_self, Function.update_self, h]
    · rw [Function.update_of_ne heq, Function.update_of_ne heq]
  simp only [Server.blank, Server.setSlot, hslots]

theorem blank_eventset (slot fd : Nat) (callBack : CallBack) (time : Int) :
    (s.eventset slot fd callBack time).blank = s.blank.eventset slot fd callBack time :=
  blank_setSlot slot fun _ => rfl

theorem blank_eventadd (events : UInt32) (slot : Nat) :
    (s.eventadd events slot).blank = s.blank.eventadd events slot := by
  have hset : (s.setSlot slot fun ev => { ev with events, status := true }).blank
      = s.blank.setSlot slot fun ev => { ev with events, status := true } :=
    blank_setSlot slot fun _ => rfl
  rw [Server.eventadd, Server.eventadd]
  show (if (s.slots slot).status then _ else _ : Server).blank
    = if (s.slots slot).status then _ else _
  rw [← hset]
  split <;> rfl

theorem blank_eventdel (slot : Nat) : (s.eventdel slot).blank = s.blank.eventdel slot := by
  have hset : (s.setSlot slot fun ev => { ev with status := false }).blank
      = s.blank.setSlot slot fun ev => { ev with status := false } :=
    blank_setSlot slot fun _ => rfl
  rw [Server.eventdel, Server.eventdel]
  show (if (s.slots slot).status then _ else _ : Server).blank
    = if (s.slots slot).status then _ else _
  rw [← hset]
  split <;> rfl

theorem blank_fillBuf (slot : Nat) (bytes : List UInt8) :
    (s.setSlot slot (Server.fillBuf bytes)).blank = s.blank := by
  have hfill : ∀ ev, (Server.fillBuf bytes ev).blank = ev.blank := by
    intro ev
    rw [Server.fillBuf]
    split <;> rfl
  have hset : (s.setSlot slot (Server.fillBuf bytes)).blank = s.blank.setSlot slot id :=
    blank_setSlot slot hfill
  rw [hset, Server.setSlot, id_eq, Function.update_eq_self]

theorem blank_acceptconn (i : Input) : (s.acceptconn i).blank = s.blank.acceptconn i := by
  rw [Server.acceptconn, Server.acceptconn, show s.blank.kernel = s.kernel from rfl]
  rcases s.kernel.accept i.accepted with _ | ⟨cfd, kernel⟩
  · rfl
  · dsimp only
    rw [show Server.freeSlot { s.blank with kernel } = Server.freeSlot { s with kernel } from rfl]
    cases Server.freeSlot { s with kernel } with
    | none => rfl
    | some slot =>
        dsimp only
        split
        · rw [blank_eventadd, blank_eventset]
          rfl
        · rfl

/-- An entry of the log, with whatever bytes. -/
theorem blank_log (h : s.blank = s'.blank) {t t' : Traffic} (ht : t.blank = t'.blank) :
    Server.blank { s with log := t :: s.log } = Server.blank { s' with log := t' :: s'.log } := by
  show ({ s.blank with log := t.blank :: s.blank.log } : Server)
    = { s'.blank with log := t'.blank :: s'.blank.log }
  rw [h, ht]

/-- The end of a connection. -/
theorem blank_hangUp (h : s.blank = s'.blank) (slot : Nat) :
    ((s.eventdel slot).setKernel (Kernel.close ((s.eventdel slot).slots slot).fd)).blank
      = ((s'.eventdel slot).setKernel (Kernel.close ((s'.eventdel slot).slots slot).fd)).blank := by
  have hdel : (s.eventdel slot).blank = (s'.eventdel slot).blank := by
    rw [blank_eventdel, blank_eventdel, h]
  show (s.eventdel slot).blank.setKernel (Kernel.close ((s.eventdel slot).blank.slots slot).fd)
    = (s'.eventdel slot).blank.setKernel (Kernel.close ((s'.eventdel slot).blank.slots slot).fd)
  rw [hdel]

theorem blank_recvdata (h : s.blank = s'.blank) (clients clients' : Clients) (fd slot : Nat)
    (i : Input) :
    (s.recvdata clients fd slot i).blank = (s'.recvdata clients' fd slot i).blank := by
  have hopened : s.kernel.opened fd = s'.kernel.opened fd := by rw [kernel_eq_of_blank h]
  rw [Server.recvdata, Server.recvdata, hopened]
  cases i.recv with
  | data =>
      cases s'.kernel.opened fd with
      | none => exact blank_hangUp h slot
      | some conn =>
          have hentry : ∀ b b', (Traffic.recv conn b).blank = (Traffic.recv conn b').blank :=
            fun _ _ => rfl
          simp only [blank_eventadd, blank_eventset, blank_fillBuf, blank_eventdel]
          rw [blank_log h (hentry _ _)]
  | closed | error => exact blank_hangUp h slot

/-- What `senddata` does after `send`. -/
theorem blank_afterSend (h : s.blank = s'.blank) (fd slot : Nat) (i : Input) :
    (if 0 < i.sent then
        ((s.eventdel slot).eventset slot fd .recvdata i.time).eventadd epollIn slot
      else (s.eventdel slot).setKernel (Kernel.close ((s.eventdel slot).slots slot).fd)).blank
    = (if 0 < i.sent then
        ((s'.eventdel slot).eventset slot fd .recvdata i.time).eventadd epollIn slot
      else (s'.eventdel slot).setKernel (Kernel.close ((s'.eventdel slot).slots slot).fd)).blank := by
  split
  · simp only [blank_eventadd, blank_eventset, blank_eventdel]
    rw [h]
  · exact blank_hangUp h slot

theorem blank_senddata (h : s.blank = s'.blank) (fd slot : Nat) (i : Input) :
    (s.senddata fd slot i).blank = (s'.senddata fd slot i).blank := by
  have hopened : s.kernel.opened fd = s'.kernel.opened fd := by rw [kernel_eq_of_blank h]
  rw [Server.senddata, Server.senddata, hopened]
  cases s'.kernel.opened fd with
  | none => exact blank_afterSend h fd slot i
  | some conn =>
      have hentry : ∀ b b', (Traffic.send conn b).blank = (Traffic.send conn b').blank :=
        fun _ _ => rfl
      exact blank_afterSend (blank_log h (hentry _ _)) fd slot i

theorem blank_callBack (h : s.blank = s'.blank) (clients clients' : Clients) (slot : Nat)
    (i : Input) :
    (s.callBack clients slot i).map Server.blank
      = (s'.callBack clients' slot i).map Server.blank := by
  have hslot := slot_eq_of_blank h slot
  have hcall : (s.slots slot).callBack = (s'.slots slot).callBack := by
    show (s.slots slot).blank.callBack = (s'.slots slot).blank.callBack
    rw [hslot]
  have hfd : (s.slots slot).fd = (s'.slots slot).fd := by
    show (s.slots slot).blank.fd = (s'.slots slot).blank.fd
    rw [hslot]
  have harg : (s.slots slot).arg = (s'.slots slot).arg := by
    show (s.slots slot).blank.arg = (s'.slots slot).blank.arg
    rw [hslot]
  rw [Server.callBack, Server.callBack, hcall, hfd, harg]
  rcases (s'.slots slot).callBack with _ | _ | _ | _
  · rfl
  · refine congrArg Except.ok ?_
    rw [blank_acceptconn, blank_acceptconn, h]
  · exact congrArg Except.ok (blank_recvdata h clients clients' _ _ i)
  · exact congrArg Except.ok (blank_senddata h _ _ i)

theorem blank_scanTurn (s : Server) : s.scanTurn.blank = s.blank.scanTurn := by
  rw [scanTurn_eq, scanTurn_eq]
  by_cases h : (s.slots (scanPos s.checkpos)).status ∧
      60 ≤ s.now - (s.slots (scanPos s.checkpos)).lastActive
  · rw [if_pos h, blank_eventdel]
    exact (if_pos h).symm
  · rw [if_neg h]
    exact (if_neg h).symm

theorem blank_setControl (h : s.blank = s'.blank) (control : Control) :
    Server.blank { s with control } = Server.blank { s' with control } := by
  show ({ s.blank with control } : Server) = { s'.blank with control }
  rw [h]

/-- One of the two callback tests of an event. -/
theorem blank_event (h : s.blank = s'.blank) (clients clients' : Clients) (slot : Nat)
    (bits mask : UInt32) (i : Input) (control : Control) :
    (if bits &&& mask ≠ 0 ∧ (s.slots slot).events &&& mask ≠ 0 then
        s.callBack clients slot i >>= fun s => Except.ok { s with control }
      else .ok { s with control }).map Server.blank
    = (if bits &&& mask ≠ 0 ∧ (s'.slots slot).events &&& mask ≠ 0 then
        s'.callBack clients' slot i >>= fun s => Except.ok { s with control }
      else .ok { s' with control }).map Server.blank := by
  have hevents : (s.slots slot).events = (s'.slots slot).events := by
    show (s.slots slot).blank.events = (s'.slots slot).blank.events
    rw [slot_eq_of_blank h]
  rw [hevents]
  split
  · rcases map_eq_map_cases (blank_callBack h clients clients' slot i) with
      ⟨e, hs, hs'⟩ | ⟨t, t', hs, hs', ht⟩
    · rw [hs, hs']
    · rw [hs, hs']
      exact congrArg Except.ok (blank_setControl ht control)
  · exact congrArg Except.ok (blank_setControl h control)

/-- A step without its bytes depends on the server without its bytes only. -/
theorem blank_step (clients clients' : Clients) (i : Input) (h : s.blank = s'.blank) :
    (s.step clients i).map Server.blank = (s'.step clients' i).map Server.blank := by
  have hcontrol : s.control = s'.control := by
    show s.blank.control = s'.blank.control
    rw [h]
  have hnow : ∀ control, Server.blank { s with now := i.time, control }
      = Server.blank { s' with now := i.time, control } := by
    intro control
    show ({ s.blank with now := i.time, control } : Server)
      = { s'.blank with now := i.time, control }
    rw [h]
  rw [Server.step, Server.step, hcontrol]
  rcases s'.control with n | _ | batch | ⟨slot, bits, batch⟩ | _
  · have hstart : (if n = 0 then { s with now := i.time, control := .scan n } else s).blank
        = (if n = 0 then { s' with now := i.time, control := .scan n } else s').blank := by
      split
      · exact hnow _
      · exact h
    dsimp only
    split
    · refine congrArg Except.ok (blank_setControl ?_ _)
      rw [blank_scanTurn, blank_scanTurn, hstart]
    · exact congrArg Except.ok (blank_setControl hstart _)
  · cases i.wait with
    | none => exact congrArg Except.ok (blank_setControl h _)
    | some ready =>
        dsimp only
        rw [show s.kernel.wait ready = s'.kernel.wait ready by rw [kernel_eq_of_blank h]]
        exact congrArg Except.ok (blank_setControl h _)
  · rcases batch with _ | ⟨⟨slot, bits⟩, batch⟩
    · exact congrArg Except.ok (blank_setControl h _)
    · exact blank_event h clients clients' slot bits epollIn i _
  · exact blank_event h clients clients' slot bits epollOut i _
  · exact congrArg Except.ok h

end Blank

/-- Two runs with the same inputs make the same calls, whatever the clients send. -/
theorem blank_run (clients clients' : Clients) (lfd : Nat) (isOpen : Nat → Bool) (time : Int)
    (inputs : List Input) :
    (Server.run clients lfd isOpen time inputs).map Server.blank
      = (Server.run clients' lfd isOpen time inputs).map Server.blank :=
  runSteps_map (fun _ _ i h => blank_step clients clients' i h) rfl inputs

theorem length_sentOn_blank (conn : Nat) (log : List Traffic) :
    (sentOn conn (log.map Traffic.blank)).length = (sentOn conn log).length := by
  induction log with
  | nil => rfl
  | cons t log ih =>
      cases t with
      | recv d bytes =>
          rw [List.map_cons, Traffic.blank, sentOn_recv, sentOn_recv, ih]
      | send d bytes =>
          rw [List.map_cons, Traffic.blank]
          by_cases hd : conn = d
          · rw [hd, sentOn_send_self, sentOn_send_self, List.length_append, List.length_append,
              ← hd, ih, List.length_singleton, List.length_singleton]
          · rw [(other_traffic (t := .send d []) hd _).2.1, (other_traffic (t := .send d bytes) hd _).2.1,
              ih]

/-- What a client sends decides alone what it is offered: two runs in which one
    client sends the same offer it the same chunks, one of them perhaps fewer. -/
theorem sentOn_isPrefixOf {clients clients' : Clients} {conn : Nat} {log log' : List Traffic}
    (h : Served clients log) (h' : Served clients' log')
    (hsame : ∀ n, clients conn n = clients' conn n)
    (hle : (sentOn conn log).length ≤ (sentOn conn log').length) :
    sentOn conn log <+: sentOn conn log' := by
  have hchunks : (fun n => (clients conn n).bytes) = fun n => (clients' conn n).bytes := by
    funext n
    rw [hsame n]
  have hrange : List.range (sentOn conn log).length
      = (List.range (sentOn conn log').length).take (sentOn conn log).length := by
    rw [List.take_range, Nat.min_eq_left hle]
  rw [h.sentOn conn, h'.sentOn conn, hchunks, hrange]
  exact (List.take_prefix ..).map _

/-- No data crosses connections: whatever `send` offers is the latest `recv` of the
    same connection; a client that sends the same is offered the same chunks in
    the same order, whatever the others send and however the run goes, and just as
    many of them if only the bytes of the others differ. -/
theorem reactor_isolation (clients : Clients) (lfd : Nat) (isOpen : Nat → Bool) (time : Int)
    (inputs : List Input) :
    ∃ s, Server.run clients lfd isOpen time inputs = .ok s ∧ Echoes s.log ∧
      ∀ (clients' : Clients) (inputs' : List Input),
        ∃ s', Server.run clients' lfd isOpen time inputs' = .ok s' ∧
          ∀ conn, (∀ n, clients conn n = clients' conn n) →
            (sentOn conn s.log <+: sentOn conn s'.log ∨ sentOn conn s'.log <+: sentOn conn s.log) ∧
              (inputs = inputs' → sentOn conn s.log = sentOn conn s'.log) := by
  obtain ⟨s, hrun, hs⟩ := isolation_run clients lfd isOpen time inputs
  refine ⟨s, hrun, hs.served.echoes, fun clients' inputs' => ?_⟩
  obtain ⟨s', hrun', hs'⟩ := isolation_run clients' lfd isOpen time inputs'
  refine ⟨s', hrun', fun conn hsame => ⟨?_, ?_⟩⟩
  · rcases Nat.le_total (sentOn conn s.log).length (sentOn conn s'.log).length with hle | hle
    · exact .inl (sentOn_isPrefixOf hs.served hs'.served hsame hle)
    · exact .inr (sentOn_isPrefixOf hs'.served hs.served (fun n => (hsame n).symm) hle)
  · intro heq
    have hblank := blank_run clients clients' lfd isOpen time inputs
    rw [hrun, heq, hrun'] at hblank
    have hlog : s.log.map Traffic.blank = s'.log.map Traffic.blank :=
      congrArg Server.log (Except.ok.inj hblank)
    have hlen : (sentOn conn s.log).length = (sentOn conn s'.log).length := by
      rw [← length_sentOn_blank, hlog, length_sentOn_blank]
    exact (sentOn_isPrefixOf hs.served hs'.served hsame (Nat.le_of_eq hlen)).eq_of_length hlen

/-- One turn of the loop in which one descriptor is ready. -/
def oneEvent (fd : Nat) (event : Input) : List Input :=
  List.replicate 101 event ++ [{ event with wait := some [(fd, epollIn ||| epollOut)] }, event, event,
    event]

/-- Two connections, one after the other on the same slot and descriptor. -/
def reuseInputs : List Input :=
  let event : Input :=
    { time := 0, wait := none, accepted := some 5, fcntl := true, recv := .data, sent := 1 }
  oneEvent 3 event ++ oneEvent 5 event ++ oneEvent 5 event ++ oneEvent 5 { event with recv := .closed }
    ++ oneEvent 3 event ++ oneEvent 5 event ++ oneEvent 5 event

/-- A client on connection 1 that sends one byte again and again, and one on connection 2. -/
def twoClients (first second : UInt8) : Clients := fun conn _ =>
  { bytes := [if conn = 1 then first else second], ne_nil := List.cons_ne_nil _ _
    le_bufLen := Nat.le_add_left 1 255 }

theorem reactor_isolation_reuse :
    ∃ s s', Server.run (twoClients 65 66) 3 (fun fd => fd < 3) 0 reuseInputs = .ok s ∧
      Server.run (twoClients 67 66) 3 (fun fd => fd < 3) 0 reuseInputs = .ok s' ∧
      Echoes s.log ∧ sentOn 2 s.log = sentOn 2 s'.log ∧
      (sentOn 1 s.log, sentOn 2 s.log) = ([[65]], [[66]]) := by
  obtain ⟨s, hrun, hechoes, htwo⟩ :=
    reactor_isolation (twoClients 65 66) 3 (fun fd => fd < 3) 0 reuseInputs
  obtain ⟨s', hrun', hconn⟩ := htwo (twoClients 67 66) reuseInputs
  have hsent : (Server.run (twoClients 65 66) 3 (fun fd => fd < 3) 0 reuseInputs).map
      (fun s => (sentOn 1 s.log, sentOn 2 s.log)) = .ok ([[65]], [[66]]) := by
    decide +kernel
  rw [hrun] at hsent
  exact ⟨s, s', hrun, hrun', hechoes, (hconn 2 fun _ => rfl).2 rfl, Except.ok.inj hsent⟩

end LinuxCodeDemos.Reactor

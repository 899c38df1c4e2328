/-
  LinuxCodeDemos.WsaAsyncSelect.Online

  The counter of clients that are online.

  Both `FD_READ`, when `recv` returns no data, and `FD_CLOSE` count a client out and close its
  socket, and neither looks whether the other has done so; a message with an error code does
  nothing at all.  The counter is right and every client is closed once exactly if a client is
  counted out only while its socket is open, and no `FD_CLOSE` with an error code comes for an
  open socket (`online_iff`).
-/

import LinuxCodeDemos.WsaAsyncSelect.Window

namespace LinuxCodeDemos.WsaAsyncSelect

open Lib

-- ============================================================================
-- Definitions
-- ============================================================================

/-- `g_nCount` is the number of accepted sockets that have not been closed. -/
def CountRight (w : Window) : Prop := w.gnCount = (w.sockets.live w.accepted).length

/-- No client is closed twice, by its own messages or by others, and one whose `FD_CLOSE` has been
    dispatched has been closed. -/
def ClosedOnce (w : Window) : Prop :=
  ∀ a ∈ w.accepted, w.closeCalls.count a.conn ≤ 1 ∧ w.closed.count a.conn ≤ 1 ∧
    (a.conn ∈ w.closeSeen →
      w.closeCalls.count a.conn = 1 ∧ w.closed.count a.conn = 1 ∧ w.sockets.isLive a = false)

/-- A client is counted out only while its socket is open, and an open socket is not left to an
    `FD_CLOSE` with an error code. -/
def GoesOnce (w : Window) (m : Message) : Prop :=
  w.Posts m →
    match m.nEventType with
    | .accept _ _ => True
    | .read client received =>
        m.nErrorCode = 0 → w.recv client.handle received ≤ 0 → w.sockets.isLive client = true
    | .close client => m.nErrorCode = 0 ↔ w.sockets.isLive client = true

instance (w : Window) (m : Message) : Decidable (GoesOnce w m) :=
  match h : m.nEventType with
  | .accept _ _ => .isTrue (by rw [GoesOnce, h]; exact fun _ => trivial)
  | .read client received =>
      decidable_of_iff (w.Posts m → m.nErrorCode = 0 → w.recv client.handle received ≤ 0 →
        w.sockets.isLive client = true) (by rw [GoesOnce, h])
  | .close client =>
      decidable_of_iff (w.Posts m → (m.nErrorCode = 0 ↔ w.sockets.isLive client = true))
        (by rw [GoesOnce, h])

structure Inv (w : Window) : Prop where
  numbered : w.sockets.Numbered w.accepted
  count : CountRight w
  bound : w.gnCount ≤ intMax
  selected : w.selected ⊆ w.accepted
  /-- Every accepted socket is open or has been closed by one call. -/
  calls : ∀ a ∈ w.accepted, w.closeCalls.count a.conn = if w.sockets.isLive a then 0 else 1
  calls_lt : ∀ conn ∈ w.closeCalls, conn < w.sockets.next
  /-- Every call has closed the client whose message led to it. -/
  closed : w.closed = w.closeCalls
  seen : ∀ a ∈ w.accepted, a.conn ∈ w.closeSeen → w.sockets.isLive a = false
  seen_lt : ∀ conn ∈ w.closeSeen, conn < w.sockets.next

-- ============================================================================
-- Messages
-- ============================================================================

section Messages

variable {w w' : Window} {m : Message} {client : Accepted Nat}

theorem Inv.closedOnce (h : Inv w) : ClosedOnce w := by
  intro a ha
  have hcalls := h.calls a ha
  have hle : w.closeCalls.count a.conn ≤ 1 := by
    rw [hcalls]
    split
    · exact Nat.zero_le 1
    · exact Nat.le_refl 1
  rw [h.closed]
  refine ⟨hle, hle, ?_⟩
  intro hseen
  have hdead := h.seen a ha hseen
  rw [hdead] at hcalls
  exact ⟨hcalls, hcalls, hdead⟩

/-- Accepted connections with one number are one. -/
theorem Inv.eq_of_conn_eq (h : Inv w) {a b : Accepted Nat} (ha : a ∈ w.accepted)
    (hb : b ∈ w.accepted) (heq : a.conn = b.conn) : a = b :=
  List.inj_on_of_nodup_map h.numbered.distinct ha hb heq

theorem setCount_eq {count : Int} (hlow : -2 ^ 31 ≤ count) (hhigh : count ≤ intMax) :
    w.setCount count = .ok { w with gnCount := count } := by
  rw [Window.setCount, checkInt_of_le hlow hhigh]
  rfl

theorem le_of_setCount {count : Int} (h : w.setCount count = .ok w') :
    count ≤ intMax ∧ w' = { w with gnCount := count } := by
  rw [Window.setCount, checkInt] at h
  split at h
  · next hrange =>
    cases h
    exact ⟨hrange.2, rfl⟩
  · cases h

/-- A client that is counted out can be. -/
theorem onGone_eq (hcount : CountRight w) (hbound : w.gnCount ≤ intMax) (client : Accepted Nat) :
    w.onGone client = .ok (Window.closesocket { w with gnCount := w.gnCount - 1 } client) := by
  rw [CountRight] at hcount
  rw [Window.onGone, setCount_eq (by omega) (by omega)]
  rfl

/-- An open client is counted out and closed. -/
theorem Inv.gone (h : Inv w) (ha : client ∈ w.accepted) (hlive : w.sockets.isLive client = true) :
    Inv (Window.closesocket { w with gnCount := w.gnCount - 1 } client) := by
  have hmem : client.handle ∈ w.sockets.live w.accepted :=
    List.mem_map_of_mem (List.mem_filter.mpr ⟨ha, hlive⟩)
  have hself : (w.sockets.close client.handle).isLive client = false := by
    simp [Handles.isLive, Handles.close]
  constructor
  case numbered => exact h.numbered.close client.handle
  case count =>
    have hpos := List.length_pos_of_mem hmem
    have hcount := h.count
    rw [CountRight] at hcount ⊢
    show w.gnCount - 1 = ((w.sockets.close client.handle).live w.accepted).length
    rw [h.numbered.live_close, List.length_erase_of_mem hmem]
    omega
  case bound =>
    show w.gnCount - 1 ≤ intMax
    have hbound := h.bound
    omega
  case selected => exact h.selected
  case calls =>
    intro b hb
    show (client.conn :: w.closeCalls).count b.conn =
      if (w.sockets.close client.handle).isLive b then 0 else 1
    by_cases heq : b.conn = client.conn
    · have hcalls := h.calls client ha
      rw [hlive] at hcalls
      rw [h.eq_of_conn_eq hb ha heq, hself, List.count_cons_self, hcalls]
      rfl
    · rw [Handles.isLive_close hlive heq, List.count_cons_of_ne (Ne.symm heq)]
      exact h.calls b hb
  case calls_lt =>
    intro conn hconn
    rcases List.mem_cons.mp hconn with rfl | hold
    · exact h.numbered.lt client ha
    · exact h.calls_lt conn hold
  case closed =>
    have hopened : w.sockets.opened client.handle = some client.conn := of_decide_eq_true hlive
    show (w.sockets.opened client.handle).toList ++ w.closed = client.conn :: w.closeCalls
    rw [hopened, h.closed]
    rfl
  case seen =>
    intro b hb hseen
    show (w.sockets.close client.handle).isLive b = false
    by_cases heq : b.conn = client.conn
    · rw [h.eq_of_conn_eq hb ha heq]
      exact hself
    · rw [Handles.isLive_close hlive heq]
      exact h.seen b hb hseen
  case seen_lt => exact h.seen_lt

/-- A client that is closed already is closed a second time. -/
theorem Inv.not_closedOnce (h : Inv w) (ha : client ∈ w.accepted)
    (hlive : w.sockets.isLive client = false) (count : Int) (closeSeen : List Nat) :
    ¬ ClosedOnce (Window.closesocket { w with gnCount := count, closeSeen } client) := by
  intro honce
  have hle := (honce client ha).1
  have hcalls := h.calls client ha
  rw [hlive] at hcalls
  have htwo : (client.conn :: w.closeCalls).count client.conn = 2 := by
    rw [List.count_cons_self, hcalls]
    rfl
  have hle' : (client.conn :: w.closeCalls).count client.conn ≤ 1 := hle
  omega

/-- The `FD_CLOSE` of a client that is closed has been dispatched. -/
theorem Inv.see (h : Inv w) (ha : client ∈ w.accepted) (hlive : w.sockets.isLive client = false) :
    Inv { w with closeSeen := client.conn :: w.closeSeen } := by
  refine ⟨h.numbered, h.count, h.bound, h.selected, h.calls, h.calls_lt, h.closed, ?_, ?_⟩
  · intro b hb hseen
    rcases List.mem_cons.mp hseen with heq | hold
    · rw [h.eq_of_conn_eq hb ha heq]
      exact hlive
    · exact h.seen b hb hold
  · intro conn hconn
    rcases List.mem_cons.mp hconn with rfl | hold
    · exact h.numbered.lt client ha
    · exact h.seen_lt conn hold

/-- No call and no message has the number of a connection to come. -/
theorem Inv.next_unused (h : Inv w) :
    w.closeCalls.count w.sockets.next = 0 ∧ w.sockets.next ∉ w.closeSeen := by
  refine ⟨?_, ?_⟩
  · apply List.count_eq_zero.mpr
    intro hmem
    exact Nat.lt_irrefl _ (h.calls_lt _ hmem)
  · intro hmem
    exact Nat.lt_irrefl _ (h.seen_lt _ hmem)

/-- A client comes and is counted in. -/
theorem Inv.join (h : Inv w) {socket : Nat} (hfree : w.sockets.opened socket = none)
    (hbound : w.gnCount + 1 ≤ intMax) :
    Inv { w with
      sockets := w.sockets.take socket
      accepted := w.accepted ++ [⟨w.sockets.next, socket⟩]
      selected := ⟨w.sockets.next, socket⟩ :: w.selected
      gnCount := w.gnCount + 1 } := by
  obtain ⟨hcalls, hseen⟩ := h.next_unused
  constructor
  case numbered => exact h.numbered.take socket
  case count =>
    have hcount := h.count
    rw [CountRight] at hcount ⊢
    dsimp only
    rw [h.numbered.live_take hfree, List.length_append, List.length_singleton]
    omega
  case bound => exact hbound
  case selected =>
    apply List.cons_subset.mpr
    exact ⟨List.mem_append_right _ (List.mem_singleton.mpr rfl),
      List.Subset.trans h.selected (List.subset_append_left _ _)⟩
  case calls =>
    intro a ha
    dsimp only
    rcases List.mem_append.mp ha with hold | hnew
    · rw [h.numbered.isLive_take hfree hold]
      exact h.calls a hold
    · rw [List.mem_singleton.mp hnew]
      simpa [Handles.isLive, Handles.take] using hcalls
  case calls_lt =>
    intro conn hconn
    exact Nat.lt_succ_of_lt (h.calls_lt conn hconn)
  case closed => exact h.closed
  case seen =>
    intro a ha haseen
    dsimp only
    rcases List.mem_append.mp ha with hold | hnew
    · rw [h.numbered.isLive_take hfree hold]
      exact h.seen a hold haseen
    · rw [List.mem_singleton.mp hnew] at haseen
      exact absurd haseen hseen
  case seen_lt =>
    intro conn hconn
    exact Nat.lt_succ_of_lt (h.seen_lt conn hconn)

/-- A client comes and `WSAAsyncSelect` fails for it. -/
theorem Inv.refuse (h : Inv w) {socket : Nat} (hfree : w.sockets.opened socket = none) :
    Inv (Window.closesocket { w with
      sockets := w.sockets.take socket
      accepted := w.accepted ++ [⟨w.sockets.next, socket⟩] } ⟨w.sockets.next, socket⟩) := by
  obtain ⟨hcalls, hseen⟩ := h.next_unused
  have hold : ∀ a ∈ w.accepted,
      ((w.sockets.take socket).close socket).isLive a = w.sockets.isLive a := by
    intro a ha
    have hne : a.conn ≠ w.sockets.next := Nat.ne_of_lt (h.numbered.lt a ha)
    have hnew : (w.sockets.take socket).isLive ⟨w.sockets.next, socket⟩ = true := by
      simp [Handles.isLive, Handles.take]
    rw [← h.numbered.isLive_take hfree ha]
    exact Handles.isLive_close hnew hne
  constructor
  case numbered => exact (h.numbered.take socket).close socket
  case count =>
    have hcount := h.count
    rw [CountRight] at hcount ⊢
    show w.gnCount = (((w.sockets.take socket).close socket).live
      (w.accepted ++ [⟨w.sockets.next, socket⟩])).length
    rw [h.numbered.live_refuse hfree]
    exact hcount
  case bound => exact h.bound
  case selected => exact List.Subset.trans h.selected (List.subset_append_left _ _)
  case calls =>
    intro a ha
    show (w.sockets.next :: w.closeCalls).count a.conn =
      if ((w.sockets.take socket).close socket).isLive a then 0 else 1
    rcases List.mem_append.mp ha with hmem | hnew
    · have hne : w.sockets.next ≠ a.conn := Nat.ne_of_gt (h.numbered.lt a hmem)
      rw [hold a hmem, List.count_cons_of_ne hne]
      exact h.calls a hmem
    · rw [List.mem_singleton.mp hnew, List.count_cons_self, hcalls]
      simp [Handles.isLive, Handles.close]
  case calls_lt =>
    intro conn hconn
    rcases List.mem_cons.mp hconn with rfl | hmem
    · exact Nat.lt_succ_self _
    · exact Nat.lt_succ_of_lt (h.calls_lt conn hmem)
  case closed =>
    have hopened : (w.sockets.take socket).opened socket = some w.sockets.next :=
      Function.update_self ..
    show ((w.sockets.take socket).opened socket).toList ++ w.closed = w.sockets.next :: w.closeCalls
    rw [hopened, h.closed]
    rfl
  case seen =>
    intro a ha haseen
    show ((w.sockets.take socket).close socket).isLive a = false
    rcases List.mem_append.mp ha with hmem | hnew
    · rw [hold a hmem]
      exact h.seen a hmem haseen
    · rw [List.mem_singleton.mp hnew] at haseen
      exact absurd haseen hseen
  case seen_lt =>
    intro conn hconn
    exact Nat.lt_succ_of_lt (h.seen_lt conn hconn)

theorem Inv.onAccept (h : Inv w) {hSockClient : Option Nat} {selected : Bool}
    (haccept : w.onAccept hSockClient selected = .ok w') : Inv w' := by
  cases hSockClient with
  | none =>
      cases haccept
      exact h
  | some socket =>
      rw [Window.onAccept] at haccept
      split at haccept
      · next hfree =>
        dsimp only at haccept
        split at haccept
        · obtain ⟨hbound, rfl⟩ := le_of_setCount haccept
          exact h.join hfree hbound
        · cases haccept
          exact h.refuse hfree
      · cases haccept
        exact h

/-- A message that meets the condition. -/
theorem Inv.step (h : Inv w) (honce : GoesOnce w m) (hstep : w.step m = .ok w') : Inv w' := by
  rw [Window.step] at hstep
  split at hstep
  · next hposts =>
    have hcond := honce hposts
    rw [Window.Posts] at hposts
    rw [Window.noteClose, Window.onSocketEvent] at hstep
    cases hevent : m.nEventType with
    | accept hSockClient selected =>
        simp only [hevent] at hstep
        split at hstep
        · cases hstep
          exact h
        · exact h.onAccept hstep
    | read client received =>
        simp only [hevent] at hstep hcond hposts
        split at hstep
        · cases hstep
          exact h
        · next hzero =>
          split at hstep
          · cases hstep
            exact h
          · next hreceived =>
            have hlive := hcond (not_not.mp hzero) (Int.not_lt.mp hreceived)
            rw [onGone_eq h.count h.bound] at hstep
            cases hstep
            exact h.gone (h.selected hposts) hlive
    | close client =>
        simp only [hevent] at hstep hcond hposts
        have ha := h.selected hposts.1
        split at hstep
        · next herror =>
          cases hstep
          apply h.see ha
          rw [Bool.eq_false_iff]
          exact fun hlive => herror (hcond.mpr hlive)
        · next hzero =>
          have hlive := hcond.mp (not_not.mp hzero)
          rw [onGone_eq (w := { w with closeSeen := client.conn :: w.closeSeen }) h.count h.bound]
            at hstep
          cases hstep
          apply (h.gone ha hlive).see ha
          simp [Window.closesocket, Handles.isLive, Handles.close]
  · cases hstep
    exact h

/-- A message that does not meet it. -/
theorem Inv.step_wrong (h : Inv w) (honce : ¬ GoesOnce w m) :
    ∃ w', w.step m = .ok w' ∧ ¬ (CountRight w' ∧ ClosedOnce w') := by
  rw [GoesOnce, Classical.not_imp] at honce
  obtain ⟨hposts, hcond⟩ := honce
  rw [Window.step, if_pos hposts, Window.noteClose, Window.onSocketEvent]
  rw [Window.Posts] at hposts
  cases hevent : m.nEventType with
  | accept hSockClient selected =>
      simp only [hevent] at hcond
      exact absurd trivial hcond
  | read client received =>
      simp only [hevent, Classical.not_imp, Bool.not_eq_true] at hcond hposts ⊢
      obtain ⟨hzero, hreceived, hlive⟩ := hcond
      rw [if_neg (not_not.mpr hzero), if_neg (Int.not_lt.mpr hreceived), onGone_eq h.count h.bound]
      refine ⟨_, rfl, fun hboth => ?_⟩
      exact h.not_closedOnce (h.selected hposts) hlive _ _ hboth.2
  | close client =>
      simp only [hevent] at hcond hposts ⊢
      have ha := h.selected hposts.1
      by_cases hzero : m.nErrorCode = 0
      · have hlive : w.sockets.isLive client = false := by
          rw [Bool.eq_false_iff]
          exact fun hlive => hcond ⟨fun _ => hlive, fun _ => hzero⟩
        rw [if_neg (not_not.mpr hzero),
          onGone_eq (w := { w with closeSeen := client.conn :: w.closeSeen }) h.count h.bound]
        refine ⟨_, rfl, fun hboth => ?_⟩
        exact h.not_closedOnce ha hlive _ _ hboth.2
      · have hlive : w.sockets.isLive client = true := by
          by_contra hclosed
          exact hcond ⟨fun hsame => absurd hsame hzero, fun hopen => absurd hopen hclosed⟩
        rw [if_pos hzero]
        refine ⟨_, rfl, fun hboth => ?_⟩
        have hfalse := ((hboth.2 client ha).2.2 (List.mem_cons_self ..)).2.2
        exact absurd (hlive.symm.trans hfalse) (by simp)

theorem inv_start (hListenSocket : Nat) : Inv (.start hListenSocket) :=
  ⟨Handles.numbered_single hListenSocket, rfl, Int.natCast_nonneg _, List.Subset.refl _,
    fun _ ha => (nomatch ha), fun _ hc => (nomatch hc), rfl, fun _ ha => (nomatch ha),
    fun _ hc => (nomatch hc)⟩

end Messages

-- ============================================================================
-- Runs
-- ============================================================================

/-- For every order of messages, `g_nCount` is the number of open clients and every client is
    closed once, exactly if a client is counted out only while its socket is open and no
    `FD_CLOSE` with an error code comes for an open socket. -/
theorem online_iff (hListenSocket : Nat) (ms : List Message) :
    EveryState Window.step (fun w => CountRight w ∧ ClosedOnce w) (.start hListenSocket) ms ↔
      AlongRun Window.step GoesOnce (.start hListenSocket) ms :=
  everyState_iff (fun _ h => And.intro h.count h.closedOnce) (fun _ _ _ h honce hstep => h.step honce hstep)
    (fun _ _ h honce => h.step_wrong honce) (inv_start hListenSocket) ms

/-- A client comes, its connection is reset, and Winsock posts `FD_CLOSE` with `WSAECONNRESET`. -/
def resetClient : List Message :=
  [⟨0, .accept (some 104) true⟩, ⟨10054, .close ⟨1, 104⟩⟩]

/-- The client is counted as online and its socket is open for ever. -/
theorem not_online_resetClient :
    ¬ EveryState Window.step (fun w => CountRight w ∧ ClosedOnce w) (.start 100) resetClient := by
  intro hall
  have hrun : (runSteps Window.step (.start 100) resetClient).map (fun w =>
      (w.accepted, w.closeSeen, w.closeCalls)) = .ok ([⟨1, 104⟩], [1], []) := by
    decide +kernel
  obtain ⟨w, hw, hview⟩ := exists_ok_of_map hrun
  obtain ⟨haccepted, hview⟩ := Prod.mk.inj hview
  obtain ⟨hseen, hcalls⟩ := Prod.mk.inj hview
  have hclient : (⟨1, 104⟩ : Accepted Nat) ∈ w.accepted :=
    haccepted ▸ List.mem_singleton.mpr rfl
  have hone := (((hall.last hw).2 _ hclient).2.2 (hseen ▸ List.mem_singleton.mpr rfl)).1
  rw [hcalls] at hone
  cases hone

end LinuxCodeDemos.WsaAsyncSelect

/-
  LinuxCodeDemos.WsaEventSelect.Closing

  Sockets whose `FD_CLOSE` has been reported.

  The bits of an entry are looked at one after the other and only the first one is served, so an
  `FD_CLOSE` beside another bit is lost; and if no entry stays, the removal leaves the arrays as
  they are.  The arrays are in step and every reported `FD_CLOSE` is served exactly if neither
  happens (`arrays_iff`).
-/

import LinuxCodeDemos.WsaEventSelect.Arrays

namespace LinuxCodeDemos.WsaEventSelect

open Lib
open Function (update)

-- ============================================================================
-- Definitions
-- ============================================================================

/-- The two entries at `k` belong to one socket; between the wait and the removal the socket may
    be marked instead. -/
def SameSocket (s : Server) : Prop :=
  ∀ k < s.dwCount, ∃ socket event, s.pSockets[k]? = some socket ∧ s.pEvents[k]? = some event ∧
    ((s.control ≠ .wait ∧ socket = invalidSocket) ∨
      ∃ conn, s.sockets.opened socket = some conn ∧ s.events event = some conn)

/-- At the end of an iteration the sockets whose `FD_CLOSE` was reported in it are closed, and no
    entry is theirs. -/
def CloseServed (s : Server) : Prop :=
  s.control = .wait → ∀ conn ∈ s.closing,
    (∀ socket, s.sockets.opened socket ≠ some conn) ∧ ∀ event ∈ s.pEvents, s.events event ≠ some conn

/-- The entry for which this step reports `FD_CLOSE`, and all that is reported for it. -/
def Server.closeReport (s : Server) (i : Input) : Option (Nat × NetworkEvents) :=
  match s.control with
  | .wait => none
  | .scan index dwIndex =>
      if index ≤ dwIndex then
        match s.pSockets[index]? with
        | none => none
        | some socket =>
            match s.enumNetworkEvents socket i with
            | none => none
            | some (_, triggered) =>
                if triggered.lNetworkEvents &&& fdClose ≠ 0 then some (index, triggered) else none
      else none

/-- If `FD_CLOSE` is reported, it is reported alone, and another entry is valid. -/
def CloseAlone (s : Server) (i : Input) : Prop :=
  ∀ report ∈ s.closeReport i,
    report.2.lNetworkEvents &&& fdAccept = 0 ∧ report.2.lNetworkEvents &&& fdRead = 0 ∧
      ∃ socket ∈ s.pSockets.eraseIdx report.1, socket ≠ invalidSocket

instance (s : Server) (i : Input) : Decidable (CloseAlone s i) :=
  inferInstanceAs (Decidable (∀ report ∈ s.closeReport i, _))

/-- Every reported `FD_CLOSE` has been served, and an entry stays. -/
structure Served (pSockets : List Nat) (sockets : Handles Nat) (closing : List Nat) : Prop where
  closed : ∀ conn ∈ closing, conn < sockets.next ∧ ∀ socket, sockets.opened socket ≠ some conn
  stays : ∃ socket ∈ pSockets, socket ≠ invalidSocket

structure ServedInv (s : Server) : Prop where
  loop : LoopInv s
  served : Served s.pSockets s.sockets s.closing

/-- A socket with a reported `FD_CLOSE` is open and the scan has passed it, or no entry is left. -/
structure Pending (s : Server) : Prop where
  loop : LoopInv s
  lost : ∃ index dwIndex, s.control = .scan index dwIndex ∧
    ((∃ conn ∈ s.closing, ∃ socket, s.sockets.opened socket = some conn ∧
        socket ∉ s.pSockets.drop index) ∨
      ∀ socket ∈ s.pSockets, socket = invalidSocket)

-- ============================================================================
-- Steps
-- ============================================================================

section Steps

variable {index dwIndex socket event : Nat} {s s' : Server} {i : Input}

theorem closeReport_eq (hcontrol : s.control = .scan index dwIndex) (hle : index ≤ dwIndex)
    (hsocket : s.pSockets[index]? = some socket) {conn : Nat} {triggered : NetworkEvents}
    (henum : s.enumNetworkEvents socket i = some (conn, triggered))
    (hclose : triggered.lNetworkEvents &&& fdClose ≠ 0) :
    s.closeReport i = some (index, triggered) := by
  rw [Server.closeReport, hcontrol]
  simp only [if_pos hle, hsocket, henum]
  exact if_pos hclose

/-- Where a step reports `FD_CLOSE`. -/
theorem exists_of_closeReport {report : Nat × NetworkEvents} (h : s.closeReport i = some report) :
    ∃ dwIndex socket conn, s.control = .scan report.1 dwIndex ∧ report.1 ≤ dwIndex ∧
      s.pSockets[report.1]? = some socket ∧
      s.enumNetworkEvents socket i = some (conn, report.2) ∧
      report.2.lNetworkEvents &&& fdClose ≠ 0 := by
  rw [Server.closeReport] at h
  split at h
  · cases h
  · next index dwIndex hcontrol =>
    split at h
    · next hle =>
      split at h
      · cases h
      · next socket hsocket =>
        split at h
        · cases h
        · next conn triggered henum =>
          split at h
          · next hclose =>
            cases h
            exact ⟨dwIndex, socket, conn, hcontrol, hle, hsocket, henum, hclose⟩
          · cases h
    · cases h

/-- The closed connections stay closed when another one is accepted. -/
theorem ServedInv.acceptClient (h : ServedInv s) (sockSrv : Nat) (i : Input)
    (triggered : NetworkEvents) :
    let t := s.acceptClient sockSrv i triggered
    Served t.pSockets t.sockets t.closing := by
  have htake : ∀ client conn, conn ∈ s.closing →
      ∀ socket, (s.sockets.take client).opened socket ≠ some conn := by
    intro client conn hconn socket hopen
    obtain ⟨hlt, hclosed⟩ := h.served.closed conn hconn
    rcases Handles.opened_take hopen with ⟨-, rfl⟩ | ⟨-, hold⟩
    · exact Nat.lt_irrefl _ hlt
    · exact hclosed socket hold
  have hnext : ∀ conn ∈ s.closing, conn < s.sockets.next + 1 := fun conn hconn =>
    Nat.lt_succ_of_lt (h.served.closed conn hconn).1
  obtain ⟨other, hother, hvalid⟩ := h.served.stays
  rcases acceptClient_cases sockSrv s i triggered with heq | ⟨client, -, -, ⟨-, heq⟩ | heq⟩
  · simp only [heq]
    exact h.served
  · simp only [heq, h.loop.take_dwCount.1]
    exact ⟨fun conn hconn => ⟨hnext conn hconn, htake client conn hconn⟩, other,
      List.mem_append_left _ hother, hvalid⟩
  · simp only [heq]
    refine ⟨fun conn hconn => ⟨hnext conn hconn, fun socket hopen => ?_⟩, other, hother, hvalid⟩
    exact htake client conn hconn socket (Handles.opened_close hopen).2

/-- A connection is closed and its entry marked. -/
theorem ServedInv.closeClient (h : ServedInv s) {conn : Nat}
    (hopen : s.sockets.opened socket = some conn) {other : Nat}
    (hother : other ∈ s.pSockets.eraseIdx index) (hvalid : other ≠ invalidSocket) :
    Served (s.pSockets.set index invalidSocket) (s.sockets.close socket) (conn :: s.closing) := by
  refine ⟨fun c hc => ?_, other, ?_, hvalid⟩
  · rcases List.mem_cons.mp hc with rfl | hold
    · refine ⟨h.loop.paired.numbered.opened_lt socket c hopen, fun k hk => ?_⟩
      obtain ⟨hne, hk⟩ := Handles.opened_close hk
      exact hne (h.loop.paired.numbered.opened_inj k socket c hk hopen)
    · obtain ⟨hlt, hclosed⟩ := h.served.closed c hold
      exact ⟨hlt, fun k hk => hclosed k (Handles.opened_close hk).2⟩
  · obtain ⟨k, hne, hk⟩ := List.mem_eraseIdx_iff_getElem?.mp hother
    refine List.mem_of_getElem? (i := k) ?_
    exact (List.getElem?_set_ne hne.symm).trans hk

/-- An entry whose report meets the condition. -/
theorem ServedInv.scanEntry (h : ServedInv s) (halone : CloseAlone s i)
    (hcontrol : s.control = .scan index dwIndex) (hle : index ≤ dwIndex)
    (hsocket : s.pSockets[index]? = some socket) (sockSrv event : Nat) :
    let t := s.scanEntry sockSrv index socket event i
    Served t.pSockets t.sockets t.closing := by
  dsimp only
  rw [Server.scanEntry]
  cases henum : s.enumNetworkEvents socket i with
  | none => exact h.served
  | some report =>
      obtain ⟨conn, triggered⟩ := report
      by_cases hclose : triggered.lNetworkEvents &&& fdClose ≠ 0
      · obtain ⟨haccept, hread, other, hother, hvalid⟩ :=
          halone _ (closeReport_eq hcontrol hle hsocket henum hclose)
        simp only [Server.noteClose, if_pos hclose, haccept, hread, ne_eq, not_true_eq_false, if_false]
        exact h.closeClient (opened_of_enumNetworkEvents henum) hother hvalid
      · have hsame : s.noteClose conn triggered = s := if_neg hclose
        simp only [hsame, if_neg hclose, ite_self]
        split
        · exact h.acceptClient sockSrv i triggered
        · exact h.served

/-- The removal leaves the valid entries, if there are any. -/
theorem LoopInv.endScan_eq (h : LoopInv s) (hmove : s.bNeedToMove = true)
    (hstays : ∃ socket ∈ s.pSockets, socket ≠ invalidSocket) :
    s.endScan = { s with
      control := .wait
      pEvents := (validEntries s.pSockets s.pEvents).2
      pSockets := (validEntries s.pSockets s.pEvents).1
      dwCount := (validEntries s.pSockets s.pEvents).1.length } := by
  obtain ⟨hsockets, hevents⟩ := h.take_dwCount
  have hpos : (validEntries s.pSockets s.pEvents).1.length > 0 := by
    obtain ⟨socket, hsocket, hvalid⟩ := hstays
    rw [validEntries_fst h.paired.length_eq]
    exact List.length_pos_of_mem (List.mem_filter.mpr ⟨hsocket, decide_eq_true hvalid⟩)
  rw [Server.endScan]
  simp only [hmove, if_true, hsockets, hevents, if_pos hpos]

theorem ServedInv.endScan (h : ServedInv s) : ServedInv s.endScan := by
  cases hmove : s.bNeedToMove with
  | false =>
      have heq : s.endScan = { s with control := .wait } := by
        rw [Server.endScan]
        simp only [hmove]
        rfl
      rw [heq]
      refine ⟨⟨h.loop.paired, h.loop.count, h.loop.flagged, fun _ => h.loop.flagged hmove, ?_⟩,
        h.served⟩
      exact fun _ _ hscan => by cases hscan
  | true =>
      rw [h.loop.endScan_eq hmove h.served.stays]
      have hfst := validEntries_fst h.loop.paired.length_eq
      have hvalid : ∀ socket ∈ (validEntries s.pSockets s.pEvents).1, socket ≠ invalidSocket := by
        intro socket hsocket
        rw [hfst] at hsocket
        exact of_decide_eq_true (List.mem_filter.mp hsocket).2
      obtain ⟨other, hother, hne⟩ := h.served.stays
      refine ⟨⟨h.loop.paired.validEntries, rfl, fun _ => hvalid, fun _ => hvalid, ?_⟩,
        h.served.closed, other, ?_, hne⟩
      · exact fun _ _ hscan => by cases hscan
      · rw [hfst]
        exact List.mem_filter.mpr ⟨hother, decide_eq_true hne⟩

theorem ServedInv.waitStep (h : ServedInv s) (hcontrol : s.control = .wait) :
    ServedInv (s.waitStep i) := by
  have hvalid := h.loop.resting hcontrol
  have hrest : ServedInv { s with bNeedToMove := false, closing := [] } :=
    ⟨⟨h.loop.paired, h.loop.count, fun _ => hvalid, h.loop.resting, h.loop.ahead⟩,
      fun _ hconn => absurd hconn List.not_mem_nil, h.served.stays⟩
  rcases waitStep_cases s i with heq | ⟨dwIndex, hlt, heq⟩
  · rw [heq]
    exact hrest
  · rw [heq]
    refine ⟨⟨h.loop.paired, h.loop.count, fun _ => hvalid, fun hwait => (by cases hwait), ?_⟩,
      hrest.served⟩
    intro index' dwIndex' hscan
    cases hscan
    exact ⟨hlt, hvalid⟩

/-- The step lemma. -/
theorem ServedInv.step (h : ServedInv s) {sockSrv : Nat} (halone : CloseAlone s i)
    (hstep : s.step sockSrv i = .ok s') : ServedInv s' := by
  cases hcontrol : s.control with
  | wait =>
      rw [Server.step, hcontrol] at hstep
      cases hstep
      exact h.waitStep hcontrol
  | scan index dwIndex =>
      by_cases hle : index ≤ dwIndex
      · obtain ⟨socket, event, hsocket, hevent⟩ := h.loop.exists_entry hcontrol hle
        rw [step_entry sockSrv i hcontrol hle hsocket hevent] at hstep
        cases hstep
        exact ⟨h.loop.scanEntry hcontrol hsocket hevent,
          h.scanEntry halone hcontrol hle hsocket sockSrv event⟩
      · rw [step_endScan sockSrv i hcontrol hle] at hstep
        cases hstep
        exact h.endScan

/-- The socket of an entry does not come again behind it. -/
theorem LoopInv.notMem_drop (h : LoopInv s) (hcontrol : s.control = .scan index dwIndex)
    (hsocket : s.pSockets[index]? = some socket) : socket ∉ s.pSockets.drop (index + 1) := by
  intro hmem
  obtain ⟨k, hk⟩ := List.mem_iff_getElem?.mp hmem
  rw [List.getElem?_drop] at hk
  have heq := h.paired.index_unique hsocket hk (h.ahead_entry hcontrol hsocket).1
  omega

/-- `acceptClient` leaves an open socket open and does not give it a new entry. -/
theorem LoopInv.acceptClient_leaves (h : LoopInv s) {conn : Nat}
    (hopen : s.sockets.opened socket = some conn) {n : Nat} (hnotMem : socket ∉ s.pSockets.drop n)
    (sockSrv : Nat) (i : Input) (triggered : NetworkEvents) :
    let t := s.acceptClient sockSrv i triggered
    t.sockets.opened socket = some conn ∧ socket ∉ t.pSockets.drop n ∧ t.closing = s.closing := by
  rcases acceptClient_cases sockSrv s i triggered with heq | ⟨client, hfree, -, hcases⟩
  · simp only [heq]
    exact ⟨hopen, hnotMem, trivial⟩
  · have hne : socket ≠ client := Handles.ne_of_opened hopen hfree
    rcases hcases with ⟨-, heq⟩ | heq
    · simp only [heq, h.take_dwCount.1]
      refine ⟨(Function.update_of_ne hne ..).trans hopen, fun hmem => ?_, trivial⟩
      rcases mem_drop_concat hmem with hold | hnew
      · exact hnotMem hold
      · exact hne hnew
    · simp only [heq]
      refine ⟨?_, hnotMem, trivial⟩
      exact (Function.update_of_ne hne ..).trans ((Function.update_of_ne hne ..).trans hopen)

/-- `FD_CLOSE` comes with another bit, or for the last valid entry. -/
theorem ServedInv.step_lost (h : ServedInv s) (sockSrv : Nat) (hlost : ¬ CloseAlone s i) :
    ∃ s', s.step sockSrv i = .ok s' ∧ Pending s' := by
  simp only [CloseAlone, not_forall] at hlost
  obtain ⟨report, hreport, hfail⟩ := hlost
  obtain ⟨dwIndex, socket, conn, hcontrol, hle, hsocket, henum, hclose⟩ :=
    exists_of_closeReport hreport
  obtain ⟨index, triggered⟩ := report
  obtain ⟨_, event, -, hevent⟩ := h.loop.exists_entry hcontrol hle
  have hopen := opened_of_enumNetworkEvents henum
  have hnotMem := h.loop.notMem_drop hcontrol hsocket
  refine ⟨_, step_entry sockSrv i hcontrol hle hsocket hevent,
    h.loop.scanEntry hcontrol hsocket hevent, index + 1, dwIndex, rfl, ?_⟩
  have hnoted : LoopInv { s with reported := conn :: s.reported, closing := conn :: s.closing } :=
    ⟨h.loop.paired, h.loop.count, h.loop.flagged, h.loop.resting, h.loop.ahead⟩
  simp only [Server.scanEntry, henum, Server.noteClose, if_pos hclose]
  split
  · -- The client that is accepted takes the place of the one that has gone.
    obtain ⟨hopen', hnotMem', hclosing⟩ :=
      hnoted.acceptClient_leaves hopen hnotMem sockSrv i triggered
    exact .inl ⟨conn, hclosing ▸ List.mem_cons_self .., socket, hopen', hnotMem'⟩
  · next haccept =>
    split
    · exact .inl ⟨conn, List.mem_cons_self .., socket, hopen, hnotMem⟩
    · next hread =>
      right
      intro other hother
      by_contra hvalid
      obtain ⟨k, hk⟩ := List.mem_iff_getElem?.mp hother
      have hne : index ≠ k := by
        rintro rfl
        have hlt := (List.getElem?_eq_some_iff.mp hsocket).1
        rw [Server.closeClient, List.getElem?_set_self hlt] at hk
        exact hvalid (Option.some.inj hk).symm
      rw [Server.closeClient, List.getElem?_set_ne hne] at hk
      refine hfail ⟨not_not.mp haccept, not_not.mp hread, other, ?_, hvalid⟩
      exact List.mem_eraseIdx_iff_getElem?.mpr ⟨k, hne.symm, hk⟩

theorem validEntries_nil {pSockets pEvents : List Nat} (h : pSockets.length = pEvents.length)
    (hall : ∀ socket ∈ pSockets, socket = invalidSocket) : (validEntries pSockets pEvents).1 = [] := by
  rw [validEntries_fst h]
  refine List.filter_eq_nil_iff.mpr fun socket hsocket => ?_
  simp [hall socket hsocket]

theorem sockets_endScan (s : Server) :
    s.endScan.sockets = s.sockets ∧ s.endScan.closing = s.closing ∧ s.endScan.control = .wait := by
  rw [Server.endScan]
  cases s.bNeedToMove with
  | false => exact ⟨rfl, rfl, rfl⟩
  | true =>
      simp only [if_true]
      split
      · exact ⟨rfl, rfl, rfl⟩
      · exact ⟨rfl, rfl, rfl⟩

/-- The iteration ends with the socket open, or with marked entries. -/
theorem Pending.step (h : Pending s) (sockSrv : Nat) (i : Input) :
    ∃ s', s.step sockSrv i = .ok s' ∧ (Pending s' ∨ ¬ (SameSocket s' ∧ CloseServed s')) := by
  obtain ⟨index, dwIndex, hcontrol, hlost⟩ := h.lost
  by_cases hle : index ≤ dwIndex
  · obtain ⟨socket, event, hsocket, hevent⟩ := h.loop.exists_entry hcontrol hle
    refine ⟨_, step_entry sockSrv i hcontrol hle hsocket hevent, .inl
      ⟨h.loop.scanEntry hcontrol hsocket hevent, index + 1, dwIndex, rfl, .inl ?_⟩⟩
    rcases hlost with ⟨conn, hconn, left, hopen, hnotMem⟩ | hall
    · rw [drop_of_getElem? hsocket, List.mem_cons, not_or] at hnotMem
      obtain ⟨hne, hnotMem⟩ := hnotMem
      obtain ⟨reported, closing, hsub, ⟨triggered, heq⟩ | heq | ⟨-, heq⟩⟩ :=
        scanEntry_cases sockSrv s index socket event i
      · rw [heq]
        have hnoted : LoopInv { s with reported, closing } :=
          ⟨h.loop.paired, h.loop.count, h.loop.flagged, h.loop.resting, h.loop.ahead⟩
        obtain ⟨hopen', hnotMem', hclosing⟩ :=
          hnoted.acceptClient_leaves hopen hnotMem sockSrv i triggered
        exact ⟨conn, hclosing ▸ hsub hconn, left, hopen', hnotMem'⟩
      · rw [heq]
        exact ⟨conn, hsub hconn, left, hopen, hnotMem⟩
      · rw [heq]
        refine ⟨conn, hsub hconn, left, (Function.update_of_ne hne ..).trans hopen, ?_⟩
        rwa [Server.closeClient, List.drop_set_of_lt (Nat.lt_succ_self index)]
    · -- The entries ahead are not marked.
      exact absurd (hall socket (List.mem_of_getElem? hsocket))
        (h.loop.ahead_entry hcontrol hsocket).1
  · refine ⟨_, step_endScan sockSrv i hcontrol hle, .inr ?_⟩
    rintro ⟨hsame, hserved⟩
    obtain ⟨hsockets, hclosing, hwait⟩ := sockets_endScan s
    rcases hlost with ⟨conn, hconn, left, hopen, -⟩ | hall
    · refine (hserved hwait conn (hclosing ▸ hconn)).1 left ?_
      rw [hsockets, hopen]
    · obtain ⟨htake, htake'⟩ := h.loop.take_dwCount
      have hnil := validEntries_nil h.loop.paired.length_eq hall
      have hunchanged : s.endScan = { s with control := .wait } := by
        rw [Server.endScan]
        simp only [htake, htake', hnil, List.length_nil, gt_iff_lt, Nat.lt_irrefl, if_false, ite_self]
      rw [hunchanged] at hsame
      have hcount : 0 < s.dwCount := Nat.zero_lt_of_lt (h.loop.ahead index dwIndex hcontrol).1
      obtain ⟨socket, event, hsocket, -, ⟨hnot, -⟩ | ⟨conn, hopen, -⟩⟩ := hsame 0 hcount
      · exact hnot rfl
      · have hinvalid := hall socket (List.mem_of_getElem? hsocket)
        have hfree := h.loop.paired.invalid_free
        rw [hinvalid] at hopen
        exact absurd (hfree.symm.trans hopen) (by simp)

theorem ServedInv.sameSocket (h : ServedInv s) : SameSocket s := by
  intro k hk
  rw [← h.loop.count] at hk
  have hk' : k < s.pEvents.length := h.loop.paired.length_eq ▸ hk
  have hsocket := List.getElem?_eq_getElem hk
  have hevent := List.getElem?_eq_getElem hk'
  refine ⟨_, _, hsocket, hevent, ?_⟩
  by_cases hvalid : s.pSockets[k] = invalidSocket
  · refine .inl ⟨fun hwait => ?_, hvalid⟩
    exact h.loop.resting hwait _ (List.getElem_mem hk) hvalid
  · exact .inr (h.loop.paired.belongs k _ _ hsocket hevent hvalid)

theorem ServedInv.closeServed (h : ServedInv s) : CloseServed s := by
  intro hwait conn hconn
  have hclosed := (h.served.closed conn hconn).2
  refine ⟨hclosed, fun event hevent hassoc => ?_⟩
  obtain ⟨k, hk⟩ := List.mem_iff_getElem?.mp hevent
  have hlt : k < s.pSockets.length := by
    rw [h.loop.paired.length_eq]
    exact (List.getElem?_eq_some_iff.mp hk).1
  have hvalid := h.loop.resting hwait _ (List.getElem_mem hlt)
  obtain ⟨conn', hopen, hassoc'⟩ :=
    h.loop.paired.belongs k _ event (List.getElem?_eq_getElem hlt) hk hvalid
  rw [hassoc] at hassoc'
  rw [← Option.some.inj hassoc'] at hopen
  exact hclosed _ hopen

theorem servedInv_start {sockSrv : Nat} (hsrv : sockSrv ≠ invalidSocket) (hListenEvent : Nat) :
    ServedInv (.start sockSrv hListenEvent) := by
  have hvalid : ∀ socket ∈ [sockSrv], socket ≠ invalidSocket := by
    intro socket hsocket
    rw [List.mem_singleton.mp hsocket]
    exact hsrv
  refine ⟨⟨⟨Handles.numbered_single sockSrv, if_neg hsrv.symm, rfl, ?_,
      List.pairwise_singleton _ _⟩, rfl, fun _ => hvalid,
    fun _ => hvalid, fun _ _ hscan => (nomatch hscan)⟩, fun _ hconn => (nomatch hconn), sockSrv,
    List.mem_singleton.mpr rfl, hsrv⟩
  intro k socket event hsocket hevent _
  rw [List.mem_singleton.mp (List.mem_of_getElem? hsocket),
    List.mem_singleton.mp (List.mem_of_getElem? hevent)]
  exact ⟨0, if_pos rfl, if_pos rfl⟩

end Steps

-- ============================================================================
-- Runs
-- ============================================================================

/-- In every run in which `FD_CLOSE` is reported without `FD_ACCEPT` and `FD_READ`, and not for the
    last valid entry, the arrays are in step and every reported `FD_CLOSE` is served by the end of
    the iteration; and a run that does not stop in the middle of a scan has this property only
    then. -/
theorem arrays_iff {sockSrv : Nat} (hsrv : sockSrv ≠ invalidSocket) (hListenEvent : Nat)
    (is : List Input) :
    (AlongRun (Server.step sockSrv) CloseAlone (.start sockSrv hListenEvent) is →
        EveryState (Server.step sockSrv) (fun s => SameSocket s ∧ CloseServed s)
          (.start sockSrv hListenEvent) is) ∧
      ((∀ s, runSteps (Server.step sockSrv) (.start sockSrv hListenEvent) is = .ok s →
          s.control = .wait) →
        EveryState (Server.step sockSrv) (fun s => SameSocket s ∧ CloseServed s)
            (.start sockSrv hListenEvent) is →
          AlongRun (Server.step sockSrv) CloseAlone (.start sockSrv hListenEvent) is) := by
  have hiff := everyState_iff_of_pending
    (fun s (h : ServedInv s) => And.intro h.sameSocket h.closeServed)
    (fun _ _ _ h halone hstep => h.step halone hstep) (fun _ _ h hlost => h.step_lost sockSrv hlost)
    (fun _ i h => Pending.step h sockSrv i) (servedInv_start hsrv hListenEvent) is
  refine ⟨hiff.1, fun hend => hiff.2 fun s hs hpending => ?_⟩
  obtain ⟨index, dwIndex, hcontrol, -⟩ := hpending.lost
  rw [hend s hs] at hcontrol
  cases hcontrol

/-- Socket 104 connects, and in the next iteration the given bits are reported for it. -/
def connectThen (bits : UInt32) : List Input :=
  let input (waited : Nat) (lNetworkEvents : UInt32) : Input :=
    { waited := some waited, triggered := some ⟨lNetworkEvents, 0, 0⟩, accepted := some 104
      created := 204, selected := true }
  [input 0 0, input 0 fdAccept, input 0 0, input 1 0, input 0 0, input 0 bits, input 0 0]

/-- The client goes away without a word. -/
theorem arrays_connectThen_close :
    EveryState (Server.step 100) (fun s => SameSocket s ∧ CloseServed s) (.start 100 200)
      (connectThen fdClose) :=
  (@arrays_iff 100 (by decide) 200 (connectThen fdClose)).1 (by decide +kernel)

/-- The client sends data and goes away: its socket stays open in the arrays. -/
theorem not_arrays_connectThen_readClose :
    ¬ EveryState (Server.step 100) (fun s => SameSocket s ∧ CloseServed s) (.start 100 200)
      (connectThen (fdRead ||| fdClose)) := by
  intro hall
  have hrun : (runSteps (Server.step 100) (.start 100 200) (connectThen (fdRead ||| fdClose))).map
      (fun s => (s.control, s.closing, s.sockets.opened 104)) = .ok (.wait, [1], some 1) := by
    decide +kernel
  obtain ⟨s, hs, hview⟩ := exists_ok_of_map hrun
  obtain ⟨hwait, hview⟩ := Prod.mk.inj hview
  obtain ⟨hclosing, hopen⟩ := Prod.mk.inj hview
  exact ((hall.last hs).2 hwait 1 (hclosing ▸ List.mem_singleton.mpr rfl)).1 104 hopen

end LinuxCodeDemos.WsaEventSelect

/-
  LinuxCodeDemos.WsaEventSelect.Arrays

  The two arrays.

  In a scan every entry that is not marked invalid has the socket and the event object of one
  connection (`Paired`), and the entries ahead are not marked.  An entry that is appended, marked
  or removed keeps this, and no run reads outside the arrays (`run_ok`).
-/

import LinuxCodeDemos.WsaEventSelect.Server

namespace LinuxCodeDemos.WsaEventSelect

open Lib
open Function (update)

-- ============================================================================
-- Definitions
-- ============================================================================

/-- Entries of the same index that are not marked belong to one connection. -/
structure Paired (pSockets pEvents : List Nat) (sockets : Handles Nat)
    (events : Nat → Option Nat) : Prop where
  numbered : sockets.Numbered []
  invalid_free : sockets.opened invalidSocket = none
  length_eq : pSockets.length = pEvents.length
  belongs : ∀ k socket event : Nat, pSockets[k]? = some socket → pEvents[k]? = some event →
    socket ≠ invalidSocket → ∃ conn, sockets.opened socket = some conn ∧ events event = some conn
  distinct : pSockets.Pairwise fun a b => a ≠ invalidSocket → a ≠ b

/-- The arrays before and in a scan. -/
structure LoopInv (s : Server) : Prop where
  paired : Paired s.pSockets s.pEvents s.sockets s.events
  count : s.pSockets.length = s.dwCount
  flagged : s.bNeedToMove = false → ∀ socket ∈ s.pSockets, socket ≠ invalidSocket
  resting : s.control = .wait → ∀ socket ∈ s.pSockets, socket ≠ invalidSocket
  ahead : ∀ index dwIndex, s.control = .scan index dwIndex →
    dwIndex < s.dwCount ∧ ∀ socket ∈ s.pSockets.drop index, socket ≠ invalidSocket

/-- The arrays are as long as `dwCount` says, and the scan stays inside them. -/
structure InRange (s : Server) : Prop where
  sockets : s.pSockets.length = s.dwCount
  events : s.pEvents.length = s.dwCount
  scan : ∀ index dwIndex, s.control = .scan index dwIndex → dwIndex < s.dwCount

-- ============================================================================
-- What the calls keep
-- ============================================================================

section Calls

variable {pSockets pEvents : List Nat} {sockets : Handles Nat} {events : Nat → Option Nat}
  {index socket event : Nat}

namespace Paired

/-- A valid socket stands at one index. -/
theorem index_unique (h : Paired pSockets pEvents sockets events) {j k : Nat}
    (hj : pSockets[j]? = some socket) (hk : pSockets[k]? = some socket)
    (hvalid : socket ≠ invalidSocket) : j = k := by
  obtain ⟨hjlt, hjget⟩ := List.getElem?_eq_some_iff.mp hj
  obtain ⟨hklt, hkget⟩ := List.getElem?_eq_some_iff.mp hk
  have hpair := List.pairwise_iff_getElem.mp h.distinct
  rcases Nat.lt_trichotomy j k with hlt | heq | hgt
  · exact absurd (hjget.trans hkget.symm) (hpair j k hjlt hklt hlt (hjget ▸ hvalid))
  · exact heq
  · exact absurd (hkget.trans hjget.symm) (hpair k j hklt hjlt hgt (hkget ▸ hvalid))

/-- A new connection behind the others. -/
theorem push (h : Paired pSockets pEvents sockets events) (hfree : sockets.opened socket = none)
    (hvalid : socket ≠ invalidSocket) (hevent : events event = none) :
    Paired (pSockets ++ [socket]) (pEvents ++ [event]) (sockets.take socket)
      (update events event (some sockets.next)) := by
  constructor
  case numbered => exact (h.numbered.take socket).forget
  case invalid_free => exact (Function.update_of_ne hvalid.symm ..).trans h.invalid_free
  case length_eq => rw [List.length_append, List.length_append, h.length_eq]; rfl
  case belongs =>
    intro k so ev hso hev hso'
    rw [List.getElem?_append] at hso hev
    rw [h.length_eq] at hso
    split at hso
    · next hlt =>
      rw [if_pos hlt] at hev
      obtain ⟨conn, hopen, hassoc⟩ := h.belongs k so ev hso hev hso'
      have hsocket : so ≠ socket := Handles.ne_of_opened hopen hfree
      have hevent' : ev ≠ event := by
        rintro rfl
        rw [hevent] at hassoc
        cases hassoc
      exact ⟨conn, (Function.update_of_ne hsocket ..).trans hopen,
        (Function.update_of_ne hevent' ..).trans hassoc⟩
    · next hge =>
      rw [if_neg hge] at hev
      rw [List.mem_singleton.mp (List.mem_of_getElem? hso),
        List.mem_singleton.mp (List.mem_of_getElem? hev)]
      exact ⟨sockets.next, Function.update_self .., Function.update_self ..⟩
  case distinct =>
    refine List.pairwise_append.mpr ⟨h.distinct, List.pairwise_singleton _ _, ?_⟩
    intro a ha b hb hne heq
    rw [List.mem_singleton.mp hb] at heq
    obtain ⟨k, hk⟩ := List.mem_iff_getElem?.mp ha
    have hklt : k < pEvents.length := by
      rw [← h.length_eq]
      exact (List.getElem?_eq_some_iff.mp hk).1
    obtain ⟨conn, hopen, -⟩ := h.belongs k a _ hk (List.getElem?_eq_getElem hklt) hne
    rw [heq, hfree] at hopen
    cases hopen

/-- A connection that is closed before it gets an entry. -/
theorem refuse (h : Paired pSockets pEvents sockets events) (hfree : sockets.opened socket = none) :
    Paired pSockets pEvents ((sockets.take socket).close socket) events := by
  have hsame : ((sockets.take socket).close socket).opened = sockets.opened := by
    funext other
    by_cases heq : other = socket
    · rw [heq, hfree]
      exact Function.update_self ..
    · exact (Function.update_of_ne heq ..).trans (Function.update_of_ne heq ..)
  refine ⟨((h.numbered.take socket).close socket).forget, ?_, h.length_eq, ?_, h.distinct⟩
  · rw [hsame]
    exact h.invalid_free
  · rw [hsame]
    exact h.belongs

/-- An entry is marked and its socket and event object are closed. -/
theorem mark (h : Paired pSockets pEvents sockets events) (hsocket : pSockets[index]? = some socket)
    (hevent : pEvents[index]? = some event) (hvalid : socket ≠ invalidSocket) :
    Paired (pSockets.set index invalidSocket) pEvents (sockets.close socket)
      (update events event none) := by
  obtain ⟨conn, hopen, hassoc⟩ := h.belongs index socket event hsocket hevent hvalid
  constructor
  case numbered => exact h.numbered.close socket
  case invalid_free => exact (Function.update_of_ne hvalid.symm ..).trans h.invalid_free
  case length_eq => rw [List.length_set, h.length_eq]
  case belongs =>
    intro k so ev hso hev hso'
    have hne : index ≠ k := by
      rintro rfl
      have hlt := (List.getElem?_eq_some_iff.mp hsocket).1
      rw [List.getElem?_set_self hlt] at hso
      exact hso' (Option.some.inj hso).symm
    rw [List.getElem?_set_ne hne] at hso
    have hother : so ≠ socket := by
      rintro rfl
      exact hne (h.index_unique hsocket hso hvalid)
    obtain ⟨conn', hopen', hassoc'⟩ := h.belongs k so ev hso hev hso'
    have hevent' : ev ≠ event := by
      rintro rfl
      rw [hassoc] at hassoc'
      rw [Option.some.inj hassoc'] at hopen
      exact hother (h.numbered.opened_inj _ _ _ hopen' hopen)
    exact ⟨conn', (Function.update_of_ne hother ..).trans hopen',
      (Function.update_of_ne hevent' ..).trans hassoc'⟩
  case distinct =>
    refine List.pairwise_iff_getElem.mpr fun j k hj hk hlt => ?_
    rw [List.length_set] at hj hk
    rw [List.getElem_set, List.getElem_set]
    split
    · exact fun hne => absurd rfl hne
    · split
      · exact id
      · exact List.pairwise_iff_getElem.mp h.distinct j k hj hk hlt

end Paired

theorem validEntries_cons (socket event : Nat) (pSockets pEvents : List Nat) :
    validEntries (socket :: pSockets) (event :: pEvents) =
      if socket ≠ invalidSocket then
        (socket :: (validEntries pSockets pEvents).1, event :: (validEntries pSockets pEvents).2)
      else validEntries pSockets pEvents := rfl

/-- The sockets that the removal keeps. -/
theorem validEntries_fst (h : pSockets.length = pEvents.length) :
    (validEntries pSockets pEvents).1 = pSockets.filter (· ≠ invalidSocket) := by
  induction pSockets generalizing pEvents with
  | nil => rfl
  | cons socket pSockets ih =>
      cases pEvents with
      | nil => cases h
      | cons event pEvents =>
          have htail := ih (Nat.succ.inj h)
          rw [validEntries_cons, List.filter_cons, ← htail]
          by_cases hvalid : socket = invalidSocket
          · simp [hvalid]
          · simp [hvalid]

theorem length_validEntries (pSockets pEvents : List Nat) :
    (validEntries pSockets pEvents).1.length = (validEntries pSockets pEvents).2.length := by
  induction pSockets generalizing pEvents with
  | nil => rfl
  | cons socket pSockets ih =>
      cases pEvents with
      | nil => rfl
      | cons event pEvents =>
          rw [validEntries_cons]
          split
          · exact congrArg Nat.succ (ih pEvents)
          · exact ih pEvents

/-- Entries that the removal keeps stay side by side. -/
theorem getElem?_validEntries {k : Nat}
    (hsocket : (validEntries pSockets pEvents).1[k]? = some socket)
    (hevent : (validEntries pSockets pEvents).2[k]? = some event) :
    ∃ j : Nat, pSockets[j]? = some socket ∧ pEvents[j]? = some event := by
  induction pSockets generalizing pEvents k with
  | nil => cases hsocket
  | cons first pSockets ih =>
      cases pEvents with
      | nil => cases hsocket
      | cons firstEvent pEvents =>
          rw [validEntries_cons] at hsocket hevent
          by_cases hvalid : first = invalidSocket
          · rw [if_neg (not_not.mpr hvalid)] at hsocket hevent
            obtain ⟨j, hj⟩ := ih hsocket hevent
            exact ⟨j + 1, hj⟩
          · rw [if_pos hvalid] at hsocket hevent
            cases k with
            | zero => exact ⟨0, hsocket, hevent⟩
            | succ k =>
                obtain ⟨j, hj⟩ := ih hsocket hevent
                exact ⟨j + 1, hj⟩

theorem Paired.validEntries (h : Paired pSockets pEvents sockets events) :
    Paired (validEntries pSockets pEvents).1 (validEntries pSockets pEvents).2 sockets events := by
  refine ⟨h.numbered, h.invalid_free, length_validEntries _ _, ?_, ?_⟩
  · intro k so ev hso hev
    obtain ⟨j, hj, hj'⟩ := getElem?_validEntries hso hev
    exact h.belongs j so ev hj hj'
  · rw [validEntries_fst h.length_eq]
    exact h.distinct.filter _

end Calls

-- ============================================================================
-- One entry of the scan
-- ============================================================================

section Entries

variable {sockSrv index dwIndex socket event : Nat} {s s' : Server} {i : Input}

/-- A client of `acceptClient` gets an entry, or is closed again. -/
theorem acceptClient_cases (sockSrv : Nat) (s : Server) (i : Input) (triggered : NetworkEvents) :
    s.acceptClient sockSrv i triggered = s ∨ ∃ client, s.sockets.opened client = none ∧
      client ≠ invalidSocket ∧
      ((s.events i.created = none ∧ s.acceptClient sockSrv i triggered = { s with
          sockets := s.sockets.take client
          events := update s.events i.created (some s.sockets.next)
          pEvents := s.pEvents.take s.dwCount ++ [i.created]
          pSockets := s.pSockets.take s.dwCount ++ [client]
          dwCount := s.dwCount + 1 }) ∨
        s.acceptClient sockSrv i triggered =
          { s with sockets := (s.sockets.take client).close client }) := by
  rw [Server.acceptClient]
  split
  · exact .inl rfl
  · split
    · exact .inl rfl
    · next client haccept =>
      have hfree : s.sockets.opened client = none ∧ client ≠ invalidSocket := by
        rw [Server.accept] at haccept
        split at haccept
        · cases haccept
        · split at haccept
          · next hcond =>
            cases haccept
            exact hcond.2
          · cases haccept
      refine .inr ⟨client, hfree.1, hfree.2, ?_⟩
      dsimp only
      split
      · next hselected => exact .inl ⟨hselected.2, rfl⟩
      · exact .inr rfl

theorem noteClose_eq (s : Server) (conn : Nat) (triggered : NetworkEvents) :
    ∃ reported closing, s.closing ⊆ closing ∧
      s.noteClose conn triggered = { s with reported, closing } := by
  rw [Server.noteClose]
  split
  · exact ⟨_, _, List.subset_cons_self .., rfl⟩
  · exact ⟨s.reported, s.closing, List.Subset.refl _, rfl⟩

/-- What is reported belongs to an open socket. -/
theorem opened_of_enumNetworkEvents {conn : Nat} {triggered : NetworkEvents}
    (h : s.enumNetworkEvents socket i = some (conn, triggered)) :
    s.sockets.opened socket = some conn := by
  rw [Server.enumNetworkEvents] at h
  split at h
  · next hopen _ =>
    split at h
    · cases h
      exact hopen
    · cases h
      exact hopen
  · cases h

/-- What the body of the scan can do. -/
theorem scanEntry_cases (sockSrv : Nat) (s : Server) (index socket event : Nat) (i : Input) :
    ∃ reported closing, s.closing ⊆ closing ∧
      ((∃ triggered, s.scanEntry sockSrv index socket event i =
          { s with reported, closing }.acceptClient sockSrv i triggered) ∨
        s.scanEntry sockSrv index socket event i = { s with reported, closing } ∨
        (∃ conn, s.sockets.opened socket = some conn) ∧
          s.scanEntry sockSrv index socket event i =
            { s with reported, closing }.closeClient index socket event) := by
  rw [Server.scanEntry]
  split
  · exact ⟨s.reported, s.closing, List.Subset.refl _, .inr (.inl rfl)⟩
  · next conn triggered henum =>
    obtain ⟨reported, closing, hsub, heq⟩ := noteClose_eq s conn triggered
    refine ⟨reported, closing, hsub, ?_⟩
    simp only [heq]
    split
    · exact .inl ⟨triggered, rfl⟩
    · split
      · exact .inr (.inl rfl)
      · split
        · exact .inr (.inr ⟨⟨conn, opened_of_enumNetworkEvents henum⟩, rfl⟩)
        · exact .inr (.inl rfl)

theorem LoopInv.ahead_entry (h : LoopInv s) (hcontrol : s.control = .scan index dwIndex)
    (hsocket : s.pSockets[index]? = some socket) :
    socket ≠ invalidSocket ∧ ∀ other ∈ s.pSockets.drop (index + 1), other ≠ invalidSocket := by
  have hahead := (h.ahead index dwIndex hcontrol).2
  rw [drop_of_getElem? hsocket] at hahead
  exact ⟨hahead socket (List.mem_cons_self ..), fun other hother =>
    hahead other (List.mem_cons_of_mem _ hother)⟩

theorem LoopInv.take_dwCount (h : LoopInv s) :
    s.pSockets.take s.dwCount = s.pSockets ∧ s.pEvents.take s.dwCount = s.pEvents := by
  rw [← h.count]
  refine ⟨List.take_length, ?_⟩
  rw [h.paired.length_eq]
  exact List.take_length

/-- `acceptClient` in the middle of a scan. -/
theorem LoopInv.acceptClient (h : LoopInv s) (hcontrol : s.control = .scan index dwIndex)
    (hsocket : s.pSockets[index]? = some socket) (triggered : NetworkEvents) :
    LoopInv { s.acceptClient sockSrv i triggered with control := .scan (index + 1) dwIndex } := by
  have hlast := (h.ahead index dwIndex hcontrol).1
  have hrest := (h.ahead_entry hcontrol hsocket).2
  rcases acceptClient_cases sockSrv s i triggered with heq | ⟨client, hfree, hvalid, ⟨hevent, heq⟩ | heq⟩
  · rw [heq]
    refine ⟨h.paired, h.count, h.flagged, fun hwait => (nomatch hwait), ?_⟩
    intro index' dwIndex' hnext
    cases hnext
    exact ⟨hlast, hrest⟩
  · obtain ⟨hsockets, hevents⟩ := h.take_dwCount
    rw [heq, hsockets, hevents]
    refine ⟨h.paired.push hfree hvalid hevent, ?_, ?_, fun hwait => (nomatch hwait), ?_⟩
    · rw [List.length_append, h.count]
      rfl
    · intro hflag other hother
      rcases List.mem_append.mp hother with hold | hnew
      · exact h.flagged hflag other hold
      · rw [List.mem_singleton.mp hnew]
        exact hvalid
    · intro index' dwIndex' hnext
      cases hnext
      refine ⟨Nat.lt_succ_of_lt hlast, fun other hother => ?_⟩
      rcases mem_drop_concat hother with hold | rfl
      · exact hrest other hold
      · exact hvalid
  · rw [heq]
    refine ⟨h.paired.refuse hfree, h.count, h.flagged, fun hwait => (nomatch hwait), ?_⟩
    intro index' dwIndex' hnext
    cases hnext
    exact ⟨hlast, hrest⟩

/-- An entry of the scan is handled. -/
theorem LoopInv.scanEntry (h : LoopInv s) (hcontrol : s.control = .scan index dwIndex)
    (hsocket : s.pSockets[index]? = some socket) (hevent : s.pEvents[index]? = some event) :
    LoopInv { s.scanEntry sockSrv index socket event i with
      control := .scan (index + 1) dwIndex } := by
  have hlast := (h.ahead index dwIndex hcontrol).1
  obtain ⟨hvalid, hrest⟩ := h.ahead_entry hcontrol hsocket
  obtain ⟨reported, closing, -, ⟨triggered, heq⟩ | heq | ⟨-, heq⟩⟩ :=
    scanEntry_cases sockSrv s index socket event i
  · rw [heq]
    have hnoted : LoopInv { s with reported, closing } :=
      ⟨h.paired, h.count, h.flagged, h.resting, h.ahead⟩
    exact hnoted.acceptClient hcontrol hsocket triggered
  · rw [heq]
    refine ⟨h.paired, h.count, h.flagged, fun hwait => (nomatch hwait), ?_⟩
    intro index' dwIndex' hnext
    cases hnext
    exact ⟨hlast, hrest⟩
  · rw [heq]
    refine ⟨h.paired.mark hsocket hevent hvalid, ?_, fun hflag => (nomatch hflag),
      fun hwait => (nomatch hwait), ?_⟩
    · exact (List.length_set ..).trans h.count
    · intro index' dwIndex' hnext
      cases hnext
      refine ⟨hlast, fun other hother => hrest other ?_⟩
      rwa [Server.closeClient, List.drop_set_of_lt (Nat.lt_succ_self index)] at hother

end Entries

-- ============================================================================
-- Steps
-- ============================================================================

section Steps

variable {index dwIndex socket event : Nat} {s : Server}

theorem step_entry (sockSrv : Nat) (i : Input) (hcontrol : s.control = .scan index dwIndex)
    (hle : index ≤ dwIndex) (hsocket : s.pSockets[index]? = some socket)
    (hevent : s.pEvents[index]? = some event) :
    s.step sockSrv i = .ok { s.scanEntry sockSrv index socket event i with
      control := .scan (index + 1) dwIndex } := by
  rw [Server.step, hcontrol]
  simp only [if_pos hle, hsocket, hevent]

theorem step_endScan (sockSrv : Nat) (i : Input) (hcontrol : s.control = .scan index dwIndex)
    (hgt : ¬ index ≤ dwIndex) : s.step sockSrv i = .ok s.endScan := by
  rw [Server.step, hcontrol]
  simp only [if_neg hgt]

/-- The scan stays inside the arrays. -/
theorem LoopInv.exists_entry (h : LoopInv s) (hcontrol : s.control = .scan index dwIndex)
    (hle : index ≤ dwIndex) :
    ∃ socket event, s.pSockets[index]? = some socket ∧ s.pEvents[index]? = some event := by
  have hlt : index < s.pSockets.length := by
    rw [h.count]
    exact Nat.lt_of_le_of_lt hle (h.ahead index dwIndex hcontrol).1
  exact ⟨_, _, List.getElem?_eq_getElem hlt,
    List.getElem?_eq_getElem (h.paired.length_eq ▸ hlt)⟩

theorem InRange.scanEntry (h : InRange s) (sockSrv index socket event : Nat)
    (i : Input) :
    let t := s.scanEntry sockSrv index socket event i
    t.pSockets.length = t.dwCount ∧ t.pEvents.length = t.dwCount ∧ s.dwCount ≤ t.dwCount := by
  obtain ⟨reported, closing, -, ⟨triggered, heq⟩ | heq | ⟨-, heq⟩⟩ :=
    scanEntry_cases sockSrv s index socket event i
  · rw [heq]
    rcases acceptClient_cases sockSrv { s with reported, closing } i triggered with
      heq | ⟨client, -, -, ⟨-, heq⟩ | heq⟩
    · simp only [heq]
      exact ⟨h.sockets, h.events, Nat.le_refl _⟩
    · simp only [heq, List.length_append, List.length_take, h.sockets, h.events, Nat.min_self]
      exact ⟨rfl, rfl, Nat.le_succ _⟩
    · simp only [heq]
      exact ⟨h.sockets, h.events, Nat.le_refl _⟩
  · rw [heq]
    exact ⟨h.sockets, h.events, Nat.le_refl _⟩
  · rw [heq]
    exact ⟨(List.length_set ..).trans h.sockets, h.events, Nat.le_refl _⟩

theorem InRange.endScan (h : InRange s) : InRange s.endScan := by
  have hrest : InRange { s with control := .wait } :=
    ⟨h.sockets, h.events, fun _ _ hscan => (nomatch hscan)⟩
  rw [Server.endScan]
  dsimp only
  split
  · split
    · exact ⟨rfl, (length_validEntries _ _).symm, fun _ _ hscan => (nomatch hscan)⟩
    · exact hrest
  · exact hrest

/-- A wait leads to a scan, or the next iteration begins. -/
theorem waitStep_cases (s : Server) (i : Input) :
    s.waitStep i = { s with bNeedToMove := false, closing := [] } ∨
      ∃ dwIndex < s.dwCount, s.waitStep i
        = { s with bNeedToMove := false, closing := [], control := .scan 0 dwIndex } := by
  rw [Server.waitStep]
  cases i.waited with
  | none => exact .inl rfl
  | some dwIndex =>
      dsimp only
      split
      · next hlt => exact .inr ⟨dwIndex, hlt, rfl⟩
      · exact .inl rfl

theorem InRange.waitStep (h : InRange s) (hcontrol : s.control = .wait) (i : Input) :
    InRange (s.waitStep i) := by
  rcases waitStep_cases s i with heq | ⟨dwIndex, hlt, heq⟩
  · rw [heq]
    exact ⟨h.sockets, h.events, fun _ _ hscan => by rw [hcontrol] at hscan; cases hscan⟩
  · rw [heq]
    refine ⟨h.sockets, h.events, fun index' dwIndex' hscan => ?_⟩
    cases hscan
    exact hlt

theorem InRange.step (h : InRange s) (sockSrv : Nat) (i : Input) :
    Ends InRange (fun _ => False) (s.step sockSrv i) := by
  cases hcontrol : s.control with
  | wait =>
      rw [Server.step, hcontrol]
      exact h.waitStep hcontrol i
  | scan index dwIndex =>
      by_cases hle : index ≤ dwIndex
      · have hlt := Nat.lt_of_le_of_lt hle (h.scan index dwIndex hcontrol)
        obtain ⟨hsockets, hevents, hcount⟩ := h.scanEntry sockSrv index _ _ i
        rw [step_entry sockSrv i hcontrol hle (List.getElem?_eq_getElem (h.sockets ▸ hlt))
          (List.getElem?_eq_getElem (h.events ▸ hlt))]
        refine ⟨hsockets, hevents, fun index' dwIndex' hscan => ?_⟩
        cases hscan
        exact Nat.lt_of_lt_of_le (h.scan index dwIndex hcontrol) hcount
      · rw [step_endScan sockSrv i hcontrol hle]
        exact h.endScan

/-- No run reads an entry outside the arrays. -/
theorem run_ok (sockSrv hListenEvent : Nat) (is : List Input) :
    ∃ s, runSteps (Server.step sockSrv) (.start sockSrv hListenEvent) is = .ok s ∧ InRange s :=
  have hstart : InRange (.start sockSrv hListenEvent) :=
    ⟨rfl, rfl, fun index dwIndex (hscan : Control.wait = .scan index dwIndex) => (nomatch hscan)⟩
  (runSteps_keeps (fun _ i h => InRange.step h sockSrv i) hstart is).exists_ok

end Steps

end LinuxCodeDemos.WsaEventSelect

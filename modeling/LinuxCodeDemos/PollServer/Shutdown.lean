/-
  LinuxCodeDemos.PollServer.Shutdown

  Clients that have shut their side down.

  `recv` returns 0 on such a client and leaves `errno` as it is, but the server looks at `errno`
  before it closes the descriptor.  If the last call that failed left `EINTR` or `EWOULDBLOCK`
  there, the client stays in the vector, open, to the end of the iteration.  So every such client
  is removed by the end of its iteration exactly if no `recv` of the run returns 0 while `errno`
  has one of the two values (`removed_iff`).
-/

import LinuxCodeDemos.PollServer.Vector

namespace LinuxCodeDemos.PollServer

open Lib
open Function (update)

-- ============================================================================
-- Definitions
-- ============================================================================

/-- The client whose descriptor this step passes to `recv`. -/
def Server.reading (listenfd : Nat) (s : Server) : Option Int :=
  match s.control with
  | .scan index =>
      match s.fds[index]? with
      | some entry =>
          if entry.revents &&& pollIn ≠ 0 ∧ entry.fd ≠ listenfd then some entry.fd else none
      | none => none
  | _ => none

/-- If `recv` returns 0 in this step, `errno` has another value than `EINTR` and `EWOULDBLOCK`
    before. -/
def ErrnoClear (listenfd : Nat) (s : Server) (i : Input) : Prop :=
  (s.reading listenfd).isSome = true → i.received = .closed →
    s.errno ≠ eintr ∧ s.errno ≠ ewouldblock

instance (listenfd : Nat) (s : Server) (i : Input) : Decidable (ErrnoClear listenfd s i) :=
  inferInstanceAs (Decidable (_ → _ → _))

/-- At the end of an iteration every client on which `recv` has returned 0 in it is closed and its
    descriptor is not in the vector. -/
def GoneRemoved (s : Server) : Prop :=
  s.control = .poll →
    ∀ a ∈ s.gone, s.handles.opened a.handle ≠ some a.conn ∧ a.handle ∉ s.fds.map PollFd.fd

/-- The descriptors of these clients are closed, and no valid entry has them. -/
def AllClosed (h : Handles Int) (fds : List PollFd) (gone : List (Accepted Int)) : Prop :=
  ∀ a ∈ gone, h.opened a.handle = none ∧ a.handle ∉ valid fds

/-- A client on which `recv` returns 0 is closed at once. -/
structure GoneInv (listenfd : Nat) (s : Server) : Prop where
  inv : Inv listenfd s
  removed : s.control ≠ .stopped → AllClosed s.handles s.fds s.gone
  fresh : s.control = .scan 0 → s.gone = []

/-- Such a client is open, and the scan has passed its entry. -/
structure Pending (listenfd : Nat) (s : Server) : Prop where
  loop : LoopInv listenfd s
  left : ∃ index, s.control = .scan index ∧ ∃ a ∈ s.gone,
    s.handles.opened a.handle = some a.conn ∧ a.handle ∉ (s.fds.drop index).map PollFd.fd

-- ============================================================================
-- One entry of the scan
-- ============================================================================

section Entries

variable {listenfd index : Nat} {s s' : Server} {i : Input} {entry : PollFd}

/-- The listening entry is the first one. -/
theorem LoopInv.index_eq_zero (h : LoopInv listenfd s) (hentry : s.fds[index]? = some entry)
    (hfd : entry.fd = listenfd) : index = 0 := by
  cases index with
  | zero => rfl
  | succ index =>
      cases hfds : s.fds with
      | nil =>
          rw [hfds] at hentry
          cases hentry
      | cons first rest =>
          have hhead := h.tidy.head
          have hnodup := h.tidy.nodup_valid
          rw [hfds] at hentry hhead hnodup
          have hfirst : first.fd = listenfd := Option.some.inj hhead
          have hlisten : (listenfd : Int) ≠ invalidFd := new_fd_ne listenfd
          have hcons : valid (first :: rest) = (listenfd : Int) :: valid rest := by
            simp [valid, hfirst, hlisten]
          rw [hcons] at hnodup
          have hmem : (listenfd : Int) ∈ valid rest := by
            refine mem_valid_iff.mpr ⟨List.mem_map.mpr ⟨entry, ?_, hfd⟩, hlisten⟩
            exact List.mem_of_getElem? (i := index) (by simpa using hentry)
          exact absurd hmem (List.nodup_cons.mp hnodup).1

/-- The descriptor of an entry does not come again behind it. -/
theorem LoopInv.fd_notMem_drop (h : LoopInv listenfd s) (hcontrol : s.control = .scan index)
    (hentry : s.fds[index]? = some entry) :
    entry.fd ∉ (s.fds.drop (index + 1)).map PollFd.fd := by
  have hvalid := (mem_valid_iff.mp (h.entry_valid hcontrol hentry)).2
  have hsub : (valid (s.fds.drop index)).Nodup :=
    h.tidy.nodup_valid.sublist (((List.drop_sublist _ _).map _).filter _)
  have hcons : valid (s.fds.drop index) = entry.fd :: valid (s.fds.drop (index + 1)) := by
    rw [drop_of_getElem? hentry]
    simp [valid, hvalid]
  rw [hcons] at hsub
  exact fun hmem => (List.nodup_cons.mp hsub).1 (mem_valid_iff.mpr ⟨hmem, hvalid⟩)

theorem AllClosed.invalidate {h : Handles Int} {fds fds' : List PollFd} {gone : List (Accepted Int)}
    (hclosed : AllClosed h fds gone) {fd : Int} (hfd : fd ≠ invalidFd)
    (hinv : PollServer.invalidate fd fds = some fds') : AllClosed (h.close fd) fds' gone := by
  intro a ha
  obtain ⟨hnone, hnotMem⟩ := hclosed a ha
  refine ⟨?_, fun hmem => ?_⟩
  · by_cases heq : a.handle = fd
    · rw [heq]
      exact Function.update_self ..
    · exact (Function.update_of_ne heq ..).trans hnone
  · rw [valid_invalidate hinv hfd] at hmem
    exact hnotMem (List.mem_of_mem_erase hmem)

/-- The client on which `recv` has just returned 0. -/
theorem AllClosed.concat {h : Handles Int} {fds fds' : List PollFd} {gone : List (Accepted Int)}
    (hclosed : AllClosed h fds gone) (hnodup : (valid fds).Nodup) {a : Accepted Int}
    (hfd : a.handle ≠ invalidFd) (hinv : PollServer.invalidate a.handle fds = some fds') :
    AllClosed (h.close a.handle) fds' (gone ++ [a]) := by
  intro b hb
  rcases List.mem_append.mp hb with hold | hnew
  · exact hclosed.invalidate hfd hinv b hold
  · rw [List.mem_singleton.mp hnew]
    refine ⟨Function.update_self .., fun hmem => ?_⟩
    rw [valid_invalidate hinv hfd] at hmem
    exact (List.Nodup.mem_erase_iff hnodup).mp hmem |>.1 rfl

theorem gone_acceptClient (s : Server) (i : Input) : (s.acceptClient i).gone = s.gone := by
  rcases acceptClient_cases s i with ⟨errno, heq⟩ | ⟨fd, -, heq | heq⟩
  · rw [heq]
  · rw [heq]
  · rw [heq]
    rfl

theorem dropClient_keeps (hclosed : AllClosed s.handles s.fds s.gone) {fd : Int}
    (hfd : fd ≠ invalidFd) :
    AllClosed (s.dropClient fd).handles (s.dropClient fd).fds (s.dropClient fd).gone := by
  rcases dropClient_cases s fd with heq | ⟨fds, hinv, heq⟩
  · rw [heq]
    exact hclosed
  · rw [heq]
    exact hclosed.invalidate hfd hinv

/-- A client's entry, with `errno` in order. -/
theorem LoopInv.readClient_keeps (h : LoopInv listenfd s)
    (hclosed : AllClosed s.handles s.fds s.gone) (hcontrol : s.control = .scan index)
    (hentry : s.fds[index]? = some entry)
    (hclear : i.received = .closed → s.errno ≠ eintr ∧ s.errno ≠ ewouldblock) :
    AllClosed (s.readClient entry.fd i).handles (s.readClient entry.fd i).fds
      (s.readClient entry.fd i).gone := by
  have hvalid := h.entry_valid hcontrol hentry
  have hfd := (mem_valid_iff.mp hvalid).2
  rw [Server.readClient]
  cases hreceived : i.received with
  | data => exact hclosed
  | failed errno => exact dropClient_keeps (s := { s with errno }) hclosed hfd
  | closed =>
      obtain ⟨conn, hconn⟩ := h.tidy.opened hvalid
      obtain ⟨fds, hinv⟩ := exists_invalidate (List.mem_of_getElem? hentry)
      have hnote : s.noteGone entry.fd = { s with gone := s.gone ++ [⟨conn, entry.fd⟩] } := by
        rw [Server.noteGone, hconn]
      have hdrop : (s.noteGone entry.fd).dropClient entry.fd =
          { Server.close { s with gone := s.gone ++ [⟨conn, entry.fd⟩] } entry.fd with
            fds, existInvalidFd := true } := by
        rw [hnote, Server.dropClient, if_pos (hclear hreceived), hinv]
      rw [hdrop]
      exact hclosed.concat (a := ⟨conn, entry.fd⟩) h.tidy.nodup_valid hfd hinv

end Entries

-- ============================================================================
-- Steps
-- ============================================================================

section Steps

variable {listenfd index : Nat} {s s' : Server} {i : Input} {entry : PollFd}

theorem step_entry (listenfd : Nat) (i : Input) (hcontrol : s.control = .scan index)
    (hentry : s.fds[index]? = some entry) :
    s.step listenfd i = .ok { s.scanEntry listenfd entry i with
      control := .scan (index + 1)
      errno := i.stray.getD (s.scanEntry listenfd entry i).errno } := by
  rw [Server.step, hcontrol]
  simp only [hentry]

theorem step_endScan (hcontrol : s.control = .scan index) (hentry : s.fds[index]? = none) :
    s.step listenfd i = .ok { s.endScan with errno := i.stray.getD s.errno } := by
  rw [Server.step, hcontrol]
  simp only [hentry]
  rfl

theorem reading_eq_some (hcontrol : s.control = .scan index) (hentry : s.fds[index]? = some entry)
    (hready : entry.revents &&& pollIn ≠ 0) (hne : entry.fd ≠ listenfd) :
    s.reading listenfd = some entry.fd := by
  rw [Server.reading, hcontrol]
  simp only [hentry]
  exact if_pos ⟨hready, hne⟩

/-- An iteration starts without such clients. -/
theorem pollStep_gone (h : LoopInv listenfd s) (hcontrol : s.control = .poll) :
    (s.pollStep i).control = .stopped ∨ (s.pollStep i).gone = [] := by
  rw [Server.pollStep]
  cases i.polled with
  | failed errno =>
      dsimp only
      split
      · exact .inr rfl
      · exact .inl ((h.begin hcontrol errno).closeAll (h.valid_eq_map hcontrol)).2
  | timeout => exact .inr rfl
  | ready revents => exact .inr rfl

theorem valid_endScan (s : Server) : valid s.endScan.fds = valid s.fds := by
  cases hflag : s.existInvalidFd with
  | false => rw [Server.endScan, hflag]; rfl
  | true =>
      have hsweep : s.endScan.fds = sweep s.fds := by rw [Server.endScan, hflag]; rfl
      rw [hsweep, valid, map_sweep, valid, List.filter_filter]
      simp

/-- A step whose `recv` does not meet a stale `errno`. -/
theorem GoneInv.step (h : GoneInv listenfd s) (hclear : ErrnoClear listenfd s i)
    (hstep : s.step listenfd i = .ok s') : GoneInv listenfd s' := by
  have hinv := h.inv.step hstep
  cases hcontrol : s.control with
  | poll =>
      rw [Server.step, hcontrol] at hstep
      cases hstep
      have hloop := h.inv.loop (by simp [hcontrol])
      rcases pollStep_gone (i := i) hloop hcontrol with hstopped | hgone
      · exact ⟨hinv, fun hrunning => absurd hstopped hrunning, fun hscan => by
          rw [show (s.pollStep i).control = .scan 0 from hscan] at hstopped
          cases hstopped⟩
      · refine ⟨hinv, fun _ a ha => ?_, fun _ => hgone⟩
        rw [show (s.pollStep i).gone = [] from hgone] at ha
        cases ha
  | scan index =>
      have hloop := h.inv.loop (by simp [hcontrol])
      have hclosed := h.removed (by simp [hcontrol])
      cases hentry : s.fds[index]? with
      | none =>
          rw [step_endScan hcontrol hentry] at hstep
          cases hstep
          refine ⟨hinv, fun _ a ha => ?_, fun hscan => by cases hscan⟩
          rw [valid_endScan]
          exact hclosed a ha
      | some entry =>
          rw [step_entry listenfd i hcontrol hentry] at hstep
          cases hstep
          refine ⟨hinv, fun _ => ?_, fun hscan => by cases hscan⟩
          rw [Server.scanEntry]
          split
          · next hready =>
            split
            · next hfd =>
              -- The listening entry comes first, when no client has been read yet.
              have hindex := hloop.index_eq_zero hentry hfd
              have hgone := h.fresh (by rw [hcontrol, hindex])
              intro a ha
              rw [gone_acceptClient, hgone] at ha
              cases ha
            · next hne =>
              refine hloop.readClient_keeps hclosed hcontrol hentry (hclear ?_)
              rw [reading_eq_some hcontrol hentry hready hne]
              rfl
          · exact hclosed
  | stopped =>
      rw [Server.step, hcontrol] at hstep
      cases hstep

theorem GoneInv.goneRemoved (h : GoneInv listenfd s) : GoneRemoved s := by
  intro hcontrol a ha
  obtain ⟨hnone, hnotMem⟩ := h.removed (by simp [hcontrol]) a ha
  rw [(h.inv.loop (by simp [hcontrol])).valid_eq_map hcontrol] at hnotMem
  refine ⟨fun hopened => ?_, hnotMem⟩
  rw [hnone] at hopened
  cases hopened

theorem goneInv_start (listenfd errno : Nat) : GoneInv listenfd (.start listenfd errno) :=
  ⟨inv_start listenfd errno, fun _ _ ha => (nomatch ha), fun _ => rfl⟩

/-- `recv` returns 0 and `errno` is stale: the client stays. -/
theorem GoneInv.step_stale (h : GoneInv listenfd s) (hstale : ¬ ErrnoClear listenfd s i) :
    ∃ s', s.step listenfd i = .ok s' ∧ Pending listenfd s' := by
  simp only [ErrnoClear, Classical.not_imp] at hstale
  obtain ⟨hreading, hreceived, herrno⟩ := hstale
  rw [Server.reading] at hreading
  split at hreading
  · next index hcontrol =>
    split at hreading
    · next entry hentry =>
      split at hreading
      · next hcond =>
        have hloop := h.inv.loop (by simp [hcontrol])
        obtain ⟨conn, hconn⟩ := hloop.tidy.opened (hloop.entry_valid hcontrol hentry)
        have hscan : s.scanEntry listenfd entry i =
            { s with gone := s.gone ++ [⟨conn, entry.fd⟩] } := by
          rw [Server.scanEntry, if_pos hcond.1, if_neg hcond.2, Server.readClient, hreceived]
          simp only [Server.noteGone, hconn]
          exact if_neg herrno
        have hstep := step_entry listenfd i hcontrol hentry
        refine ⟨_, hstep, (h.inv.step hstep).loop (by simp), index + 1, rfl, ⟨conn, entry.fd⟩, ?_⟩
        rw [hscan]
        refine ⟨List.mem_append_right _ (List.mem_singleton.mpr rfl), hconn, ?_⟩
        exact hloop.fd_notMem_drop hcontrol hentry
      · cases hreading
    · cases hreading
  · cases hreading

/-- The rest of the scan does not come to it, and the iteration ends with the client open. -/
theorem Pending.step (h : Pending listenfd s) (i : Input) :
    ∃ s', s.step listenfd i = .ok s' ∧ (Pending listenfd s' ∨ ¬ GoneRemoved s') := by
  obtain ⟨index, hcontrol, a, ha, hopened, hnotMem⟩ := h.left
  cases hentry : s.fds[index]? with
  | none =>
      refine ⟨_, step_endScan hcontrol hentry, .inr fun hremoved => ?_⟩
      exact (hremoved rfl a ha).1 hopened
  | some entry =>
      have hstep := step_entry listenfd i hcontrol hentry
      have hinv : Inv listenfd s := ⟨h.loop.once, fun _ => h.loop⟩
      refine ⟨_, hstep, .inl ⟨(hinv.step hstep).loop (by simp), index + 1, rfl, a, ?_⟩⟩
      rw [drop_of_getElem? hentry, List.map_cons, List.mem_cons, not_or] at hnotMem
      obtain ⟨hne, hrest⟩ := hnotMem
      dsimp only
      rw [Server.scanEntry]
      split
      · split
        · rcases acceptClient_cases s i with ⟨errno, heq⟩ | ⟨fd, hfree, heq | heq⟩
          · rw [heq]
            exact ⟨ha, hopened, hrest⟩
          · have hfd : a.handle ≠ fd := Handles.ne_of_opened hopened hfree
            rw [heq]
            refine ⟨ha, (Function.update_of_ne hfd ..).trans hopened, fun hmem => ?_⟩
            obtain ⟨e, he, hsame⟩ := List.mem_map.mp hmem
            rcases mem_drop_concat he with hold | rfl
            · exact hrest (hsame ▸ List.mem_map_of_mem hold)
            · exact hfd hsame.symm
          · have hfd : a.handle ≠ fd := Handles.ne_of_opened hopened hfree
            rw [heq]
            refine ⟨ha, ?_, hrest⟩
            exact (Function.update_of_ne hfd ..).trans ((Function.update_of_ne hfd ..).trans hopened)
        · obtain ⟨errno, gone, hsub, heq | ⟨fds, hinvalid, heq⟩⟩ := readClient_cases s entry.fd i
          · rw [heq]
            exact ⟨hsub ha, hopened, hrest⟩
          · rw [heq]
            refine ⟨hsub ha, (Function.update_of_ne hne ..).trans hopened, ?_⟩
            rw [show fds.drop (index + 1) = s.fds.drop (index + 1) from
              drop_invalidate hinvalid hentry rfl]
            exact hrest
      · exact ⟨ha, hopened, hrest⟩

end Steps

-- ============================================================================
-- Runs
-- ============================================================================

/-- In every run in which no `recv` returns 0 while `errno` is `EINTR` or `EWOULDBLOCK`, every
    client on which `recv` returned 0 is closed and dropped by the end of that iteration; and a
    run that does not stop in the middle of a scan has this property only then. -/
theorem removed_iff (listenfd errno : Nat) (is : List Input) :
    (AlongRun (Server.step listenfd) (ErrnoClear listenfd) (.start listenfd errno) is →
        EveryState (Server.step listenfd) GoneRemoved (.start listenfd errno) is) ∧
      ((∀ s, runSteps (Server.step listenfd) (.start listenfd errno) is = .ok s →
          ∀ index, s.control ≠ .scan index) →
        EveryState (Server.step listenfd) GoneRemoved (.start listenfd errno) is →
          AlongRun (Server.step listenfd) (ErrnoClear listenfd) (.start listenfd errno) is) := by
  have hiff := everyState_iff_of_pending (fun _ h => GoneInv.goneRemoved h)
    (fun _ _ _ h hclear hstep => h.step hclear hstep) (fun _ _ h hstale => h.step_stale hstale)
    (fun _ i h => Pending.step h i) (goneInv_start listenfd errno) is
  refine ⟨hiff.1, fun hend => hiff.2 fun s hs hpending => ?_⟩
  obtain ⟨index, hcontrol, -⟩ := hpending.left
  exact hend s hs index hcontrol

/-- A client comes, `accept` fails with `EWOULDBLOCK` for the next one, which has gone away between
    `poll` and `accept`, and the first client shuts down. -/
def staleErrno : List Input :=
  let input (polled : Polled) (accepted : Except Nat Nat) : Input :=
    { polled, accepted, fcntl := true, received := .closed, stray := none }
  let idle := input (.ready fun _ => 0) (.error 0)
  [input (.ready fun _ => pollIn) (.ok 4), input .timeout (.ok 4), idle, idle,
    input (.ready fun _ => pollIn) (.error ewouldblock), input .timeout (.error ewouldblock), idle,
    idle]

/-- Descriptor 4 is open after the iteration. -/
theorem not_goneRemoved_staleErrno :
    ¬ EveryState (Server.step 3) GoneRemoved (.start 3 0) staleErrno := by
  intro hall
  have hrun : (runSteps (Server.step 3) (.start 3 0) staleErrno).map (fun s =>
      (s.control, s.gone, s.handles.opened 4)) = .ok (.poll, [⟨1, 4⟩], some 1) := by
    decide +kernel
  obtain ⟨s, hs, hview⟩ := exists_ok_of_map hrun
  obtain ⟨hcontrol, hview⟩ := Prod.mk.inj hview
  obtain ⟨hgone, hopened⟩ := Prod.mk.inj hview
  have hremoved := hall.last hs hcontrol ⟨1, 4⟩ (hgone ▸ List.mem_singleton.mpr rfl)
  exact hremoved.1 hopened

end LinuxCodeDemos.PollServer

/-
  LinuxCodeDemos.PollServer.Vector

  The descriptors of the vector.

  In a scan the vector holds, besides the entries already given up, the listening descriptor and
  behind it the open clients in the order of their acceptance; the entries still to be scanned are
  all valid.  The sweep leaves the valid ones, so that between two iterations the vector is
  exactly this list (`vector_runs`).
-/

import LinuxCodeDemos.Lib.Memory
import LinuxCodeDemos.PollServer.Server

namespace LinuxCodeDemos.PollServer

open Lib
open Function (update)

-- ============================================================================
-- Definitions
-- ============================================================================

/-- The descriptors of the entries that have not been given up. -/
def valid (fds : List PollFd) : List Int := (fds.map PollFd.fd).filter (· ≠ invalidFd)

/-- Between two iterations: the listening entry, then the accepted clients that have not been
    closed, in the order of acceptance. -/
def VectorInOrder (listenfd : Nat) (s : Server) : Prop :=
  s.control = .poll →
    s.fds.map PollFd.fd = (listenfd : Int) :: s.handles.live s.accepted ∧
      (s.fds.map PollFd.fd).Nodup ∧ invalidFd ∉ s.fds.map PollFd.fd

/-- Every `close` hits an open descriptor, and no connection is closed twice. -/
def ClosedOnce (s : Server) : Prop := none ∉ s.closes ∧ s.closes.Nodup

/-- Vector and handles agree. -/
structure Tidy (listenfd : Nat) (fds : List PollFd) (h : Handles Int)
    (accepted : List (Accepted Int)) : Prop where
  numbered : h.Numbered accepted
  listening : h.opened listenfd = some 0
  nonneg : ∀ fd conn, h.opened fd = some conn → 0 ≤ fd
  head : (fds.map PollFd.fd).head? = some (listenfd : Int)
  valid_eq : valid fds = (listenfd : Int) :: h.live accepted

/-- The connections of the calls of `close` were open then and are not any more. -/
structure Once (h : Handles Int) (closes : List (Option Nat)) : Prop where
  closed : ∀ c ∈ closes, ∃ conn, c = some conn ∧ conn < h.next ∧ ∀ fd, h.opened fd ≠ some conn
  nodup : closes.Nodup

/-- The entry that the scan comes to next. -/
def Control.index : Control → Nat
  | .scan index => index
  | _ => 0

structure LoopInv (listenfd : Nat) (s : Server) : Prop where
  tidy : Tidy listenfd s.fds s.handles s.accepted
  once : Once s.handles s.closes
  flagged : s.existInvalidFd = false → ∀ entry ∈ s.fds, entry.fd ≠ invalidFd
  ahead : ∀ entry ∈ s.fds.drop s.control.index, entry.fd ≠ invalidFd

structure Inv (listenfd : Nat) (s : Server) : Prop where
  once : Once s.handles s.closes
  loop : s.control ≠ .stopped → LoopInv listenfd s

-- ============================================================================
-- The two passes over the vector
-- ============================================================================

section Passes

variable {fd : Int} {fds fds' : List PollFd}

theorem mem_valid_iff : fd ∈ valid fds ↔ fd ∈ fds.map PollFd.fd ∧ fd ≠ invalidFd := by
  rw [valid, List.mem_filter, decide_eq_true_iff]

theorem valid_eq_self (h : ∀ entry ∈ fds, entry.fd ≠ invalidFd) :
    valid fds = fds.map PollFd.fd := by
  refine List.filter_eq_self.mpr fun fd hfd => ?_
  obtain ⟨entry, hentry, rfl⟩ := List.mem_map.mp hfd
  exact decide_eq_true (h entry hentry)

theorem sweep_eq_filter (fds : List PollFd) :
    sweep fds = fds.filter fun entry => entry.fd ≠ invalidFd := by
  induction fds with
  | nil => rfl
  | cons entry fds ih =>
      rw [sweep, ih, List.filter_cons]
      by_cases h : entry.fd = invalidFd
      · simp [h]
      · simp [h]

theorem map_sweep (fds : List PollFd) : (sweep fds).map PollFd.fd = valid fds := by
  rw [sweep_eq_filter, valid, List.filter_map]
  rfl

/-- The search finds an entry that is there. -/
theorem exists_invalidate {entry : PollFd} (h : entry ∈ fds) :
    ∃ fds', invalidate entry.fd fds = some fds' := by
  induction fds with
  | nil => cases h
  | cons first fds ih =>
      rw [invalidate]
      split
      · exact ⟨_, rfl⟩
      · next hne =>
        rcases List.mem_cons.mp h with rfl | htail
        · exact absurd rfl hne
        · obtain ⟨rest, hrest⟩ := ih htail
          exact ⟨first :: rest, by rw [hrest]; rfl⟩

theorem valid_invalidate (h : invalidate fd fds = some fds') (hfd : fd ≠ invalidFd) :
    valid fds' = (valid fds).erase fd := by
  induction fds generalizing fds' with
  | nil => cases h
  | cons entry fds ih =>
      rw [invalidate] at h
      split at h
      · next heq =>
        cases h
        simp [valid, heq, hfd]
      · next hne =>
        obtain ⟨rest, hrest, rfl⟩ := Option.map_eq_some_iff.mp h
        have htail := ih hrest
        by_cases hinv : entry.fd = invalidFd
        · simpa [valid, hinv] using htail
        · simpa [valid, hinv, List.erase_cons_tail, hne] using htail

/-- The entry given up is not behind the one whose descriptor is looked for. -/
theorem drop_invalidate (h : invalidate fd fds = some fds') {index : Nat} {entry : PollFd}
    (hentry : fds[index]? = some entry) (hfd : entry.fd = fd) :
    fds'.drop (index + 1) = fds.drop (index + 1) := by
  induction fds generalizing fds' index with
  | nil => cases h
  | cons first fds ih =>
      rw [invalidate] at h
      split at h
      · cases h
        rfl
      · next hne =>
        obtain ⟨rest, hrest, rfl⟩ := Option.map_eq_some_iff.mp h
        cases index with
        | zero =>
            cases hentry
            exact absurd hfd hne
        | succ index => exact ih hrest hentry

theorem head?_invalidate (h : invalidate fd fds = some fds') {first : Int}
    (hhead : (fds.map PollFd.fd).head? = some first) (hne : first ≠ fd) :
    (fds'.map PollFd.fd).head? = some first := by
  cases fds with
  | nil => cases h
  | cons entry fds =>
      have hentry : entry.fd = first := Option.some.inj hhead
      rw [invalidate, if_neg fun heq => hne (hentry.symm.trans heq)] at h
      obtain ⟨rest, -, rfl⟩ := Option.map_eq_some_iff.mp h
      exact hhead

end Passes

-- ============================================================================
-- What the calls keep
-- ============================================================================

section Calls

variable {listenfd : Nat} {fds fds' : List PollFd} {h : Handles Int}
  {accepted : List (Accepted Int)} {closes : List (Option Nat)}

namespace Tidy

/-- Only the descriptors of the entries matter. -/
theorem congr (ht : Tidy listenfd fds h accepted)
    (heq : fds'.map PollFd.fd = fds.map PollFd.fd) : Tidy listenfd fds' h accepted := by
  refine ⟨ht.numbered, ht.listening, ht.nonneg, ?_, ?_⟩
  · rw [heq]
    exact ht.head
  · rw [valid, heq]
    exact ht.valid_eq

theorem nodup_valid (ht : Tidy listenfd fds h accepted) : (valid fds).Nodup := by
  rw [ht.valid_eq]
  refine List.nodup_cons.mpr ⟨fun hmem => ?_, ht.numbered.live_nodup⟩
  obtain ⟨a, ha, hopened, hfd⟩ := Handles.mem_live_iff.mp hmem
  have hzero : some 0 = some a.conn := by rw [← ht.listening, ← hfd, hopened]
  exact absurd (Option.some.inj hzero) (Nat.ne_of_lt (ht.numbered.pos a ha))

/-- The descriptor of a valid entry is open. -/
theorem opened (ht : Tidy listenfd fds h accepted) {fd : Int} (hfd : fd ∈ valid fds) :
    ∃ conn, h.opened fd = some conn := by
  rw [ht.valid_eq] at hfd
  rcases List.mem_cons.mp hfd with rfl | hlive
  · exact ⟨0, ht.listening⟩
  · obtain ⟨a, -, hopened, rfl⟩ := Handles.mem_live_iff.mp hlive
    exact ⟨a.conn, hopened⟩

/-- A new client at the end of the vector. -/
theorem push (ht : Tidy listenfd fds h accepted) {fd : Nat} (hfree : h.opened fd = none) :
    Tidy listenfd (fds ++ [.new fd]) (h.take fd) (accepted ++ [⟨h.next, fd⟩]) := by
  constructor
  case numbered => exact ht.numbered.take fd
  case listening =>
    have hne : (listenfd : Int) ≠ fd := Handles.ne_of_opened ht.listening hfree
    exact (Function.update_of_ne hne ..).trans ht.listening
  case nonneg =>
    intro k conn hk
    rcases Handles.opened_take hk with ⟨rfl, -⟩ | ⟨-, hold⟩
    · exact Int.natCast_nonneg fd
    · exact ht.nonneg k conn hold
  case head =>
    rw [List.map_append, List.head?_append, ht.head]
    rfl
  case valid_eq =>
    have hne : (fd : Int) ≠ invalidFd := by
      show (fd : Int) ≠ -1
      omega
    rw [ht.numbered.live_take hfree, ← List.cons_append, ← ht.valid_eq, valid, List.map_append,
      List.filter_append]
    simp [valid, PollFd.new, hne]

/-- A client that is given up. -/
theorem invalidate (ht : Tidy listenfd fds h accepted) {fd : Int} (hfd : fd ∈ valid fds)
    (hne : fd ≠ listenfd) (hinv : PollServer.invalidate fd fds = some fds') :
    Tidy listenfd fds' (h.close fd) accepted := by
  constructor
  case numbered => exact ht.numbered.close fd
  case listening => exact (Function.update_of_ne hne.symm ..).trans ht.listening
  case nonneg =>
    intro k conn hk
    exact ht.nonneg k conn (Handles.opened_close hk).2
  case head => exact head?_invalidate hinv ht.head hne.symm
  case valid_eq =>
    rw [valid_invalidate hinv (mem_valid_iff.mp hfd).2, ht.valid_eq, ht.numbered.live_close,
      List.erase_cons_tail]
    simpa using hne.symm

/-- A client that is closed before it gets an entry. -/
theorem refuse (ht : Tidy listenfd fds h accepted) {fd : Nat} (hfree : h.opened fd = none) :
    Tidy listenfd fds ((h.take (fd : Int)).close fd) (accepted ++ [⟨h.next, fd⟩]) := by
  have hpush := ht.push hfree
  have hne : (listenfd : Int) ≠ fd := Handles.ne_of_opened ht.listening hfree
  constructor
  case numbered => exact hpush.numbered.close fd
  case listening => exact (Function.update_of_ne hne ..).trans hpush.listening
  case nonneg =>
    intro k conn hk
    exact hpush.nonneg k conn (Handles.opened_close hk).2
  case head => exact ht.head
  case valid_eq =>
    rw [ht.numbered.live_refuse hfree, ht.valid_eq]

theorem sweep (ht : Tidy listenfd fds h accepted) :
    Tidy listenfd (PollServer.sweep fds) h accepted := by
  refine ⟨ht.numbered, ht.listening, ht.nonneg, ?_, ?_⟩
  · rw [map_sweep, ht.valid_eq]
    rfl
  · have hvalid : ∀ entry ∈ PollServer.sweep fds, entry.fd ≠ invalidFd := by
      intro entry hentry
      rw [sweep_eq_filter] at hentry
      exact of_decide_eq_true (List.mem_filter.mp hentry).2
    rw [valid_eq_self hvalid, map_sweep, ht.valid_eq]

end Tidy

theorem Once.take (ho : Once h closes) (handle : Int) : Once (h.take handle) closes := by
  refine ⟨fun c hc => ?_, ho.nodup⟩
  obtain ⟨conn, rfl, hlt, hclosed⟩ := ho.closed c hc
  refine ⟨conn, rfl, Nat.lt_succ_of_lt hlt, fun fd hfd => ?_⟩
  rcases Handles.opened_take hfd with ⟨-, rfl⟩ | ⟨-, hold⟩
  · exact absurd hlt (Nat.lt_irrefl _)
  · exact hclosed fd hold

/-- An open descriptor is closed. -/
theorem Once.close (ho : Once h closes) (hn : h.Numbered accepted) {fd : Int} {conn : Nat}
    (hfd : h.opened fd = some conn) : Once (h.close fd) (closes ++ [h.opened fd]) := by
  refine ⟨fun c hc => ?_, ?_⟩
  · rcases List.mem_append.mp hc with hold | hnew
    · obtain ⟨old, rfl, hlt, hclosed⟩ := ho.closed c hold
      exact ⟨old, rfl, hlt, fun k hk => hclosed k (Handles.opened_close hk).2⟩
    · rw [List.mem_singleton.mp hnew]
      refine ⟨conn, hfd, hn.opened_lt fd conn hfd, fun k hk => ?_⟩
      obtain ⟨hne, hk⟩ := Handles.opened_close hk
      exact hne (hn.opened_inj k fd conn hk hfd)
  · refine List.nodup_append.mpr ⟨ho.nodup, List.nodup_singleton _, ?_⟩
    intro c hc c' hc' heq
    obtain ⟨old, rfl, -, hclosed⟩ := ho.closed c hc
    rw [List.mem_singleton.mp hc'] at heq
    exact hclosed fd heq.symm

end Calls

-- ============================================================================
-- Steps
-- ============================================================================

section Steps

variable {listenfd : Nat} {s s' : Server} {i : Input} {entry : PollFd}

theorem new_fd_ne (fd : Nat) : (PollFd.new fd).fd ≠ invalidFd := by
  show (fd : Int) ≠ -1
  omega

/-- What the branch of the listening entry can do. -/
theorem acceptClient_cases (s : Server) (i : Input) :
    (∃ errno, s.acceptClient i = { s with errno }) ∨ ∃ fd : Nat, s.handles.opened fd = none ∧
      (s.acceptClient i = { s with
          handles := s.handles.take fd, accepted := s.accepted ++ [⟨s.handles.next, fd⟩]
          fds := s.fds ++ [.new fd] } ∨
        s.acceptClient i = Server.close { s with
          handles := s.handles.take fd
          accepted := s.accepted ++ [⟨s.handles.next, fd⟩] } fd) := by
  rw [Server.acceptClient, Server.accept]
  cases i.accepted with
  | error errno => exact .inl ⟨errno, rfl⟩
  | ok fd =>
      by_cases hfree : s.handles.opened fd = none
      · refine .inr ⟨fd, hfree, ?_⟩
        cases i.fcntl with
        | true =>
            left
            simp [hfree]
        | false =>
            right
            simp [hfree]
      · refine .inl ⟨s.errno, ?_⟩
        simp [hfree]

/-- What follows a `recv` without data. -/
theorem dropClient_cases (s : Server) (fd : Int) :
    s.dropClient fd = s ∨ ∃ fds, invalidate fd s.fds = some fds ∧
      s.dropClient fd = { s.close fd with fds, existInvalidFd := true } := by
  rw [Server.dropClient]
  split
  · split
    · exact .inl rfl
    · next fds hinv => exact .inr ⟨fds, hinv, rfl⟩
  · exact .inl rfl

theorem noteGone_eq (s : Server) (fd : Int) :
    ∃ gone, s.gone ⊆ gone ∧ s.noteGone fd = { s with gone } := by
  rw [Server.noteGone]
  split
  · exact ⟨s.gone, List.Subset.refl _, rfl⟩
  · exact ⟨_, List.subset_append_left _ _, rfl⟩

/-- What the branch of a client's entry can do. -/
theorem readClient_cases (s : Server) (fd : Int) (i : Input) : ∃ errno gone, s.gone ⊆ gone ∧
    (s.readClient fd i = { s with errno, gone } ∨ ∃ fds, invalidate fd s.fds = some fds ∧
      s.readClient fd i =
        { Server.close { s with errno, gone } fd with fds, existInvalidFd := true }) := by
  rw [Server.readClient]
  cases i.received with
  | data => exact ⟨s.errno, s.gone, List.Subset.refl _, .inl rfl⟩
  | closed =>
      obtain ⟨gone, hsub, hgone⟩ := noteGone_eq s fd
      refine ⟨s.errno, gone, hsub, ?_⟩
      simp only [hgone]
      exact dropClient_cases { s with gone } fd
  | failed errno =>
      exact ⟨errno, s.gone, List.Subset.refl _, dropClient_cases { s with errno } fd⟩

/-- The entry that the scan has come to is valid. -/
theorem LoopInv.entry_valid (h : LoopInv listenfd s) {index : Nat}
    (hcontrol : s.control = .scan index) (hentry : s.fds[index]? = some entry) :
    entry.fd ∈ valid s.fds := by
  have hahead := h.ahead
  rw [hcontrol, Control.index, drop_of_getElem? hentry] at hahead
  refine mem_valid_iff.mpr ⟨List.mem_map_of_mem (List.mem_of_getElem? hentry), ?_⟩
  exact hahead entry (List.mem_cons_self ..)

/-- An entry of the scan is handled. -/
theorem LoopInv.scanEntry (h : LoopInv listenfd s) {index : Nat} (hcontrol : s.control = .scan index)
    (hentry : s.fds[index]? = some entry) :
    LoopInv listenfd { s.scanEntry listenfd entry i with control := .scan (index + 1) } := by
  have hidle : ∀ e ∈ s.fds.drop (index + 1), e.fd ≠ invalidFd := by
    have hahead := h.ahead
    rw [hcontrol, Control.index, drop_of_getElem? hentry] at hahead
    exact fun e he => hahead e (List.mem_cons_of_mem _ he)
  have hvalid := h.entry_valid hcontrol hentry
  rw [Server.scanEntry]
  split
  · split
    · -- The new entry is behind all others and valid.
      rcases acceptClient_cases s i with ⟨errno, heq⟩ | ⟨fd, hfree, heq | heq⟩
      · rw [heq]
        exact ⟨h.tidy, h.once, h.flagged, hidle⟩
      · rw [heq]
        refine ⟨h.tidy.push hfree, h.once.take fd, fun hflag e he => ?_, fun e he => ?_⟩
        · rcases List.mem_append.mp he with hold | hlast
          · exact h.flagged hflag e hold
          · rw [List.mem_singleton.mp hlast]
            exact new_fd_ne fd
        · have hmem : e ∈ (s.fds ++ [PollFd.new fd]).drop (index + 1) := he
          rcases mem_drop_concat hmem with hold | rfl
          · exact hidle e hold
          · exact new_fd_ne fd
      · rw [heq]
        have hopened : (s.handles.take (fd : Int)).opened fd = some s.handles.next :=
          Function.update_self ..
        exact ⟨h.tidy.refuse hfree, (h.once.take fd).close (h.tidy.numbered.take fd) hopened,
          h.flagged, hidle⟩
    · next hne =>
      obtain ⟨errno, gone, -, heq | ⟨fds, hinv, heq⟩⟩ := readClient_cases s entry.fd i
      · rw [heq]
        exact ⟨h.tidy, h.once, h.flagged, hidle⟩
      · rw [heq]
        obtain ⟨conn, hopened⟩ := h.tidy.opened hvalid
        refine ⟨h.tidy.invalidate hvalid hne hinv, h.once.close h.tidy.numbered hopened,
          fun hflag => (nomatch hflag), ?_⟩
        intro e he
        have hmem : e ∈ fds.drop (index + 1) := he
        rw [drop_invalidate hinv hentry rfl] at hmem
        exact hidle e hmem
  · exact ⟨h.tidy, h.once, h.flagged, hidle⟩

theorem LoopInv.endScan (h : LoopInv listenfd s) : LoopInv listenfd s.endScan := by
  cases hflag : s.existInvalidFd with
  | false =>
      have hfds : s.endScan.fds = s.fds := by rw [Server.endScan, hflag]; rfl
      refine ⟨?_, h.once, ?_, ?_⟩
      · rw [hfds]
        exact h.tidy
      · rw [hfds]
        exact fun _ => h.flagged hflag
      · rw [hfds]
        exact h.flagged hflag
  | true =>
      have hfds : s.endScan.fds = sweep s.fds := by rw [Server.endScan, hflag]; rfl
      have hvalid : ∀ entry ∈ sweep s.fds, entry.fd ≠ invalidFd := by
        intro entry hentry
        rw [sweep_eq_filter] at hentry
        exact of_decide_eq_true (List.mem_filter.mp hentry).2
      refine ⟨?_, h.once, ?_, ?_⟩
      · rw [hfds]
        exact h.tidy.sweep
      · rw [hfds]
        exact fun _ => hvalid
      · rw [hfds]
        exact hvalid

theorem map_setRevents (s : Server) (revents : Nat → UInt16) :
    (s.setRevents revents).map PollFd.fd = s.fds.map PollFd.fd := by
  refine List.ext_getElem (by simp [Server.setRevents]) fun index h h' => ?_
  simp [Server.setRevents]

/-- Between two iterations all entries are valid. -/
theorem LoopInv.all_valid (h : LoopInv listenfd s) (hcontrol : s.control = .poll) :
    ∀ entry ∈ s.fds, entry.fd ≠ invalidFd := by
  have hahead := h.ahead
  rw [hcontrol] at hahead
  exact hahead

/-- An iteration begins. -/
theorem LoopInv.begin (h : LoopInv listenfd s) (hcontrol : s.control = .poll) (errno : Nat) :
    LoopInv listenfd { s with existInvalidFd := false, gone := [], errno } :=
  ⟨h.tidy, h.once, fun _ => h.all_valid hcontrol, h.ahead⟩

/-- `poll` sets the `revents` and leaves the rest alone. -/
theorem LoopInv.setRevents (h : LoopInv listenfd s) (hcontrol : s.control = .poll)
    {revents : Nat → UInt16} (hs' : s'.fds = s.setRevents revents) (hhandles : s'.handles = s.handles)
    (haccepted : s'.accepted = s.accepted) (hcloses : s'.closes = s.closes) :
    LoopInv listenfd s' := by
  have hfds : s'.fds.map PollFd.fd = s.fds.map PollFd.fd := by rw [hs', map_setRevents]
  have hvalid : ∀ entry ∈ s'.fds, entry.fd ≠ invalidFd := by
    intro entry hentry
    have hmem : entry.fd ∈ s.fds.map PollFd.fd := hfds ▸ List.mem_map_of_mem hentry
    obtain ⟨old, hold, heq⟩ := List.mem_map.mp hmem
    exact heq ▸ h.all_valid hcontrol old hold
  refine ⟨?_, ?_, fun _ => hvalid, fun entry hentry => hvalid entry (List.drop_subset _ _ hentry)⟩
  · rw [hhandles, haccepted]
    exact h.tidy.congr hfds
  · rw [hhandles, hcloses]
    exact h.once

/-- Closing the entries of a vector whose descriptors are open and differ. -/
theorem once_foldl_close {fds : List PollFd} {s : Server} {accepted : List (Accepted Int)}
    (ho : Once s.handles s.closes) (hn : s.handles.Numbered accepted)
    (hopened : ∀ entry ∈ fds, ∃ conn, s.handles.opened entry.fd = some conn)
    (hnodup : (fds.map PollFd.fd).Nodup) :
    let t := fds.foldl (fun s entry => s.close entry.fd) s
    Once t.handles t.closes ∧ t.control = s.control := by
  induction fds generalizing s with
  | nil => exact ⟨ho, rfl⟩
  | cons entry fds ih =>
      obtain ⟨hnotMem, hnodup⟩ := List.nodup_cons.mp hnodup
      obtain ⟨conn, hconn⟩ := hopened entry (List.mem_cons_self ..)
      refine ih (ho.close hn hconn) (hn.close entry.fd) ?_ hnodup
      intro other hother
      have hne : other.fd ≠ entry.fd := fun heq =>
        hnotMem (heq ▸ List.mem_map_of_mem hother)
      obtain ⟨conn', hconn'⟩ := hopened other (List.mem_cons_of_mem _ hother)
      exact ⟨conn', (Function.update_of_ne hne ..).trans hconn'⟩

theorem LoopInv.valid_eq_map (h : LoopInv listenfd s) (hcontrol : s.control = .poll) :
    valid s.fds = s.fds.map PollFd.fd :=
  valid_eq_self (h.all_valid hcontrol)

/-- The loop behind the `while` closes every descriptor once. -/
theorem LoopInv.closeAll (h : LoopInv listenfd s) (hvalid : valid s.fds = s.fds.map PollFd.fd) :
    Once s.closeAll.handles s.closeAll.closes ∧ s.closeAll.control = .stopped := by
  refine once_foldl_close h.once h.tidy.numbered ?_ ?_
  · intro entry hentry
    exact h.tidy.opened (hvalid ▸ List.mem_map_of_mem hentry)
  · rw [← hvalid]
    exact h.tidy.nodup_valid

theorem LoopInv.pollStep (h : LoopInv listenfd s) (hcontrol : s.control = .poll) :
    Inv listenfd (s.pollStep i) := by
  have hloop := h.begin hcontrol
  rw [Server.pollStep]
  cases i.polled with
  | failed errno =>
      dsimp only
      split
      · exact ⟨h.once, fun _ => hloop errno⟩
      · obtain ⟨honce, hstopped⟩ := (hloop errno).closeAll (h.valid_eq_map hcontrol)
        exact ⟨honce, fun hrunning => absurd hstopped hrunning⟩
  | timeout => exact ⟨h.once, fun _ => (hloop s.errno).setRevents hcontrol rfl rfl rfl rfl⟩
  | ready revents => exact ⟨h.once, fun _ => (hloop s.errno).setRevents hcontrol rfl rfl rfl rfl⟩

/-- The step lemma. -/
theorem Inv.step (h : Inv listenfd s) (hstep : s.step listenfd i = .ok s') : Inv listenfd s' := by
  have hleave : ∀ t : Server, Inv listenfd t →
      Inv listenfd { t with errno := i.stray.getD t.errno } := fun t ht =>
    ⟨ht.once, fun hrunning =>
      have hloop := ht.loop hrunning
      ⟨hloop.tidy, hloop.once, hloop.flagged, hloop.ahead⟩⟩
  have hinv : ∀ t : Server, LoopInv listenfd t → Inv listenfd t := fun t ht =>
    ⟨ht.once, fun _ => ht⟩
  rw [Server.step] at hstep
  cases hcontrol : s.control with
  | poll =>
      rw [hcontrol] at hstep
      cases hstep
      exact hleave _ ((h.loop (by simp [hcontrol])).pollStep hcontrol)
  | scan index =>
      have hloop := h.loop (by simp [hcontrol])
      rw [hcontrol] at hstep
      dsimp only at hstep
      split at hstep
      · cases hstep
        exact hleave _ (hinv _ hloop.endScan)
      · next entry hentry =>
        cases hstep
        exact hleave _ (hinv _ (hloop.scanEntry hcontrol hentry))
  | stopped =>
      rw [hcontrol] at hstep
      cases hstep

theorem inv_start (listenfd errno : Nat) : Inv listenfd (.start listenfd errno) := by
  have honce : Once (Server.start listenfd errno).handles [] :=
    ⟨fun c hc => (nomatch hc), List.nodup_nil⟩
  have hvalid : ∀ entry ∈ [PollFd.new listenfd], entry.fd ≠ invalidFd := by
    intro entry hentry
    rw [List.mem_singleton.mp hentry]
    exact new_fd_ne listenfd
  refine ⟨honce, fun _ => ⟨?_, honce, fun _ => hvalid, hvalid⟩⟩
  constructor
  case numbered => exact Handles.numbered_single _
  case listening => exact if_pos rfl
  case nonneg =>
    intro fd conn hfd
    rw [(Handles.opened_single hfd).1]
    exact Int.natCast_nonneg listenfd
  case head => rfl
  case valid_eq => exact valid_eq_self hvalid

end Steps

-- ============================================================================
-- Runs
-- ============================================================================

theorem LoopInv.vectorInOrder {listenfd : Nat} {s : Server} (h : LoopInv listenfd s) :
    VectorInOrder listenfd s := by
  intro hcontrol
  have hmap := h.valid_eq_map hcontrol
  refine ⟨?_, ?_, fun hmem => ?_⟩
  · rw [← hmap, h.tidy.valid_eq]
  · rw [← hmap]
    exact h.tidy.nodup_valid
  · rw [← hmap] at hmem
    exact (mem_valid_iff.mp hmem).2 rfl

theorem Once.closedOnce {s : Server} (h : Once s.handles s.closes) : ClosedOnce s := by
  refine ⟨fun hmem => ?_, h.nodup⟩
  obtain ⟨conn, hnone, -, -⟩ := h.closed none hmem
  cases hnone

/-- In every run, whatever `poll`, `accept`, `fcntl` and `recv` return and `errno` holds, the
    vector between two iterations is the listening entry followed by the open clients in the order
    of their acceptance, and no descriptor is closed twice. -/
theorem vector_runs (listenfd errno : Nat) (is : List Input) :
    EveryState (Server.step listenfd) (fun s => VectorInOrder listenfd s ∧ ClosedOnce s)
      (.start listenfd errno) is := by
  refine everyState_keeps (fun s h => ⟨fun hcontrol => ?_, h.once.closedOnce⟩)
    (fun s i s' h hstep => h.step hstep) (inv_start listenfd errno) is
  exact (h.loop (by simp [hcontrol])).vectorInOrder hcontrol

end LinuxCodeDemos.PollServer

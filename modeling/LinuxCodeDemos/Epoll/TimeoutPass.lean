/-
  LinuxCodeDemos.Epoll.TimeoutPass

  One pass of `checkTimeouts` over `fd_table`.

  The table has `Biggest_FD` entries and the loop runs to `fd <= Biggest_FD`, so its last turn
  looks at an entry behind the table: no pass stays inside (`timeoutPass_never`).  The turns
  before it do what they are for: in a state of the echo server whose entry 0 has not expired,
  every expired entry is handled once and cleared and no other entry changes
  (`timeoutTurns_expire`), and only then comes the read behind the table
  (`checkTimeouts_outOfBounds`).  `comm_close` refuses descriptor 0, so an expired entry 0 stops
  the pass in its first turn.
-/

import LinuxCodeDemos.Epoll.Ownership
import LinuxCodeDemos.Epoll.Mirror

namespace LinuxCodeDemos.Epoll

open Lib
open Function (update)

-- ============================================================================
-- Definitions
-- ============================================================================

/-- The entry has a timeout, and it is not later than `sys_curtime`. -/
def Expired (c : Comm Handler Nat) (fd : Nat) : Prop :=
  (c.fdTable fd).timeout ≠ 0 ∧ (c.fdTable fd).timeout ≤ c.sysCurtime

instance (c : Comm Handler Nat) (fd : Nat) : Decidable (Expired c fd) :=
  inferInstanceAs (Decidable (_ ∧ _))

/-- One turn of the loop, with its index of `fd_table` checked. -/
def timeoutTurn (input : Nat → Input Reply) (w : EchoWorld) (fd : Nat) : Except Trap EchoWorld := do
  checkFd fd w.comm
  checkTimeout callHandler fd (input fd) w

/-- `checkTimeouts`: `for (fd = 0; fd <= Biggest_FD; fd++)`. -/
def checkTimeouts (input : Nat → Input Reply) (w : EchoWorld) : Except Trap EchoWorld :=
  runSteps (timeoutTurn input) w (List.range (w.comm.biggestFd + 1))

/-- The descriptors whose timeout handler or `comm_close` was run, the latest first. -/
def expiredFds : List LogEntry → List Nat
  | [] => []
  | .expired fd _ :: log => fd :: expiredFds log
  | .setTimeout .. :: log => expiredFds log
  | .ctl .. :: log => expiredFds log

/-- The only timeout handler that the server installs. -/
def EchoTimers (c : Comm Handler Nat) : Prop :=
  ∀ fd, (c.fdTable fd).timeoutHandler = none ∨
    (c.fdTable fd).timeoutHandler = some .doEchoTimeout

/-- A pass stays inside the table, handles every expired entry once and leaves the others. -/
def TimeoutPass (input : Nat → Input Reply) (w : EchoWorld) : Prop :=
  ∃ w', checkTimeouts input w = .ok w' ∧ ∀ fd < w.comm.biggestFd,
    if Expired w.comm fd then
      (expiredFds w'.comm.log).count fd = (expiredFds w.comm.log).count fd + 1
    else
      (expiredFds w'.comm.log).count fd = (expiredFds w.comm.log).count fd ∧
        w'.comm.fdTable fd = w.comm.fdTable fd

-- ============================================================================
-- Closing a descriptor
-- ============================================================================

/-- The entry is cleared and these timeouts are reported; the epoll bookkeeping apart,
    nothing else changes. -/
structure Cleared (fd : Nat) (reported : List Nat) (c c' : Comm Handler Nat) : Prop where
  table : c'.fdTable = update c.fdTable fd Fde.zero
  size : c'.biggestFd = c.biggestFd
  time : c'.sysCurtime = c.sysCurtime
  log : expiredFds c'.log = reported ++ expiredFds c.log

theorem sysCurtime_epollSetEvents (ok : Bool) (fd : Nat) (needRead needWrite : Bool)
    (c : Comm Handler Nat) :
    (epollSetEvents ok fd needRead needWrite c).sysCurtime = c.sysCurtime := by
  rw [epollSetEvents]
  split <;> rfl

theorem expiredFds_epollSetEvents (ok : Bool) (fd : Nat) (needRead needWrite : Bool)
    (c : Comm Handler Nat) :
    expiredFds (epollSetEvents ok fd needRead needWrite c).log = expiredFds c.log := by
  rw [epollSetEvents]
  split <;> rfl

/-- `comm_close` fails for descriptor 0 and outside the table, and clears the entry else. -/
theorem commClose_cleared (ok : Bool) (fd : Nat) (c : Comm Handler Nat) :
    Ends (Cleared fd [] c) (fun _ => fd = 0 ∨ c.biggestFd ≤ fd) (commClose ok fd c) := by
  unfold commClose
  by_cases hzero : fd = 0
  · rw [if_pos hzero]
    exact .inl hzero
  · rw [if_neg hzero]
    by_cases hlt : fd < c.biggestFd
    · rw [checkFd, if_pos hlt]
      exact ⟨fdTable_epollSetEvents .., biggestFd_epollSetEvents .., sysCurtime_epollSetEvents ..,
        expiredFds_epollSetEvents ..⟩
    · rw [checkFd, if_neg hlt]
      exact .inr (Nat.not_lt.mp hlt)

-- ============================================================================
-- One turn
-- ============================================================================

/-- Clearing an entry behind its report. -/
theorem Cleared.after {fd : Nat} {c c₁ c' : Comm Handler Nat} (h : Cleared fd [] c₁ c')
    (htable : update c₁.fdTable fd Fde.zero = update c.fdTable fd Fde.zero)
    (hsize : c₁.biggestFd = c.biggestFd) (htime : c₁.sysCurtime = c.sysCurtime)
    (hlog : expiredFds c₁.log = fd :: expiredFds c.log) : Cleared fd [fd] c c' :=
  ⟨h.table.trans htable, h.size.trans hsize, h.time.trans htime, h.log.trans hlog⟩

/-- Why a turn that handles an entry may stop. -/
def TurnStops (fd : Nat) (c : Comm Handler Nat) (t : Trap) : Prop :=
  fd = 0 ∨ c.biggestFd ≤ fd ∨ ¬ Benign t

/-- `do_echo_timeout`. -/
theorem doEchoTimeout_cleared (fd : Nat) (data : Option Nat) (i : Input Reply) (w : EchoWorld) :
    Ends (fun w' => Cleared fd [] w.comm w'.comm) (TurnStops fd w.comm) (doEchoTimeout fd data i w) := by
  have hclose : Ends (fun w' : EchoWorld => Cleared fd [] w.comm w'.comm) (TurnStops fd w.comm)
      (onComm (commClose i.ctl fd) w) := by
    refine Ends.bind ((commClose_cleared i.ctl fd w.comm).mono (fun _ h => h) ?_) fun c hc => hc
    rintro t (hzero | hout)
    · exact .inl hzero
    · exact .inr (.inl hout)
  refine Ends.bind hclose fun w₁ h₁ => ?_
  refine (free_comm data w₁).mono (fun w₂ h₂ => ?_) fun t ht => .inr (.inr fun hb => hb.2 ht)
  rw [h₂]
  exact h₁

/-- A turn on an entry that has not expired does nothing. -/
theorem checkTimeout_quiet {w : EchoWorld} {fd : Nat} (h : ¬ Expired w.comm fd) (i : Input Reply) :
    checkTimeout callHandler fd i w = .ok w := by
  rw [checkTimeout]
  by_cases hzero : (w.comm.fdTable fd).timeout = 0
  · exact if_pos hzero
  · have hlater : w.comm.sysCurtime < (w.comm.fdTable fd).timeout := by
      by_contra hle
      exact h ⟨hzero, Int.not_lt.mp hle⟩
    exact (if_neg hzero).trans (if_pos hlater)

/-- A turn on an expired entry runs its handler, or closes it. -/
theorem checkTimeout_expired {w : EchoWorld} {fd : Nat} (htimers : EchoTimers w.comm)
    (h : Expired w.comm fd) (i : Input Reply) :
    Ends (fun w' => Cleared fd [fd] w.comm w'.comm) (TurnStops fd w.comm)
      (checkTimeout callHandler fd i w) := by
  rw [checkTimeout]
  simp only [if_neg h.1, if_neg (Int.not_lt.mpr h.2)]
  rcases htimers fd with hnone | hecho
  · rw [hnone]
    refine Ends.bind ((commClose_cleared i.ctl fd (logExpired fd w.comm)).mono (fun _ h => h) ?_)
      fun c hc => hc.after rfl rfl rfl rfl
    rintro t (hzero | hout)
    · exact .inl hzero
    · exact .inr (.inl hout)
  · rw [hecho]
    show Ends _ _ (callHandler .doEchoTimeout fd _ i _)
    rw [callHandler]
    split
    · exact .inr (.inr fun hb => hb.1 rfl)
    · refine (doEchoTimeout_cleared fd _ i _).mono (fun w' hw' => ?_) fun t ht => ht
      refine hw'.after ?_ rfl rfl rfl
      exact Function.update_idem ..

theorem timeoutTurn_inside {w : EchoWorld} {fd : Nat} (h : fd < w.comm.biggestFd)
    (input : Nat → Input Reply) :
    timeoutTurn input w fd = checkTimeout callHandler fd (input fd) w := by
  rw [timeoutTurn, checkFd, if_pos h]
  rfl

theorem timeoutTurn_outside {w : EchoWorld} {fd : Nat} (h : w.comm.biggestFd ≤ fd)
    (input : Nat → Input Reply) : timeoutTurn input w fd = .error .outOfBounds := by
  rw [timeoutTurn, checkFd, if_neg (Nat.not_lt.mpr h)]
  rfl

theorem EchoTimers.cleared {fd : Nat} {reported : List Nat} {c c' : Comm Handler Nat}
    (h : EchoTimers c) (hc : Cleared fd reported c c') : EchoTimers c' := by
  intro k
  rw [hc.table]
  by_cases hk : k = fd
  · rw [hk, Function.update_self]
    exact .inl rfl
  · rw [Function.update_of_ne hk]
    exact h k

/-- The table has `size` entries and the handlers of the server. -/
def ServerTable (size : Nat) (w : EchoWorld) : Prop :=
  w.comm.biggestFd = size ∧ EchoTimers w.comm

theorem timeoutTurn_keeps {size : Nat} {w : EchoWorld} (h : ServerTable size w)
    (input : Nat → Input Reply) (fd : Nat) :
    Ends (ServerTable size) (fun _ => True) (timeoutTurn input w fd) := by
  obtain ⟨hsize, htimers⟩ := h
  by_cases hlt : fd < w.comm.biggestFd
  · rw [timeoutTurn_inside hlt]
    by_cases hexp : Expired w.comm fd
    · refine (checkTimeout_expired htimers hexp (input fd)).mono (fun w' hc => ?_) fun _ _ => trivial
      exact ⟨hc.size.trans hsize, htimers.cleared hc⟩
    · rw [checkTimeout_quiet hexp]
      exact ⟨hsize, htimers⟩
  · rw [timeoutTurn_outside (Nat.not_lt.mp hlt)]
    trivial

-- ============================================================================
-- The pass
-- ============================================================================

/-- A clear entry has not expired, and the other entries expire as before. -/
theorem expired_cleared {fd k : Nat} {reported : List Nat} {c c' : Comm Handler Nat}
    (hc : Cleared fd reported c c') (hne : k ≠ fd) : Expired c' k ↔ Expired c k := by
  rw [Expired, Expired, hc.table, hc.time, Function.update_of_ne hne]

/-- A turn on an entry of the table that has expired, in a state of the server. -/
theorem timeoutTurn_expired {w : EchoWorld} {fd : Nat} (hheap : HeapInv w)
    (htimers : EchoTimers w.comm) (hexp : Expired w.comm fd) (hpos : fd ≠ 0)
    (hlt : fd < w.comm.biggestFd) (input : Nat → Input Reply) :
    ∃ w', timeoutTurn input w fd = .ok w' ∧ Cleared fd [fd] w.comm w'.comm ∧ HeapInv w' := by
  have hcleared := checkTimeout_expired htimers hexp (input fd)
  have hinv := hheap.checkTimeout fd (input fd)
  rw [timeoutTurn_inside hlt]
  cases hturn : checkTimeout callHandler fd (input fd) w with
  | error t =>
      rcases hcleared.of_error hturn with hzero | hout | hbad
      · exact absurd hzero hpos
      · omega
      · exact absurd (hinv.of_error hturn) hbad
  | ok w' => exact ⟨w', rfl, hcleared.of_ok hturn, hinv.of_ok hturn⟩

/-- Of these entries the expired ones are handled, one after the other, and cleared; no other
    entry changes. -/
structure Handled (fds : List Nat) (c c' : Comm Handler Nat) : Prop where
  table : ∀ fd, c'.fdTable fd = if fd ∈ fds ∧ Expired c fd then Fde.zero else c.fdTable fd
  log : expiredFds c'.log = (fds.filter fun fd => Expired c fd).reverse ++ expiredFds c.log

section Handling

variable {fd : Nat} {fds : List Nat} {c c₁ c' : Comm Handler Nat}

theorem Handled.nil (c : Comm Handler Nat) : Handled [] c c where
  table fd := by simp
  log := rfl

/-- An expired entry in front. -/
theorem Handled.cons_expired (hc : Cleared fd [fd] c c₁) (hexp : Expired c fd) (hfresh : fd ∉ fds)
    (h : Handled fds c₁ c') : Handled (fd :: fds) c c' where
  table k := by
    rw [h.table k]
    by_cases hk : k = fd
    · rw [hk, if_neg (fun h => hfresh h.1), if_pos ⟨List.mem_cons_self .., hexp⟩, hc.table,
        Function.update_self]
    · have hiff : (k ∈ fds ∧ Expired c₁ k) ↔ (k ∈ fd :: fds ∧ Expired c k) := by
        rw [List.mem_cons, expired_cleared hc hk]
        exact ⟨fun h => ⟨.inr h.1, h.2⟩, fun h => ⟨h.1.resolve_left hk, h.2⟩⟩
      rw [if_congr hiff rfl rfl, hc.table, Function.update_of_ne hk]
  log := by
    have hfilter : (fds.filter fun k => Expired c₁ k) = fds.filter fun k => Expired c k := by
      refine List.filter_congr fun k hk => decide_eq_decide.mpr (expired_cleared hc ?_)
      rintro rfl
      exact hfresh hk
    rw [h.log, hc.log, hfilter, List.filter_cons_of_pos (by simpa using hexp), List.reverse_cons,
      List.append_assoc]

/-- An entry in front that has not expired. -/
theorem Handled.cons_quiet (hexp : ¬ Expired c fd) (h : Handled fds c c') :
    Handled (fd :: fds) c c' where
  table k := by
    have hiff : (k ∈ fds ∧ Expired c k) ↔ (k ∈ fd :: fds ∧ Expired c k) := by
      rw [List.mem_cons]
      refine ⟨fun h => ⟨.inr h.1, h.2⟩, fun h => ⟨h.1.resolve_left ?_, h.2⟩⟩
      rintro rfl
      exact hexp h.2
    rw [h.table k, if_congr hiff rfl rfl]
  log := by
    rw [h.log, List.filter_cons_of_neg (by simpa using hexp)]

/-- Every expired entry is reported once, and an entry that is not reported stays. -/
theorem Handled.once (h : Handled fds c c') (hnodup : fds.Nodup) (hfd : fd ∈ fds) :
    if Expired c fd then (expiredFds c'.log).count fd = (expiredFds c.log).count fd + 1
    else (expiredFds c'.log).count fd = (expiredFds c.log).count fd ∧
      c'.fdTable fd = c.fdTable fd := by
  rw [h.log, h.table fd, List.count_append, List.count_reverse]
  split
  · next hexp =>
      have hmem : fd ∈ fds.filter fun fd => Expired c fd :=
        List.mem_filter.mpr ⟨hfd, decide_eq_true hexp⟩
      rw [List.Nodup.count (List.Pairwise.filter _ hnodup), if_pos hmem, Nat.add_comm]
  · next hexp =>
      have hmem : fd ∉ fds.filter fun fd => Expired c fd := fun hmem =>
        hexp (of_decide_eq_true (List.mem_filter.mp hmem).2)
      rw [List.count_eq_zero_of_not_mem hmem, Nat.zero_add, if_neg fun h => hexp h.2]
      exact ⟨rfl, rfl⟩

end Handling

/-- Turns on entries of the table. -/
theorem timeoutTurns_expire {input : Nat → Input Reply} {fds : List Nat} :
    ∀ {w : EchoWorld}, HeapInv w → EchoTimers w.comm → fds.Nodup →
      (∀ fd ∈ fds, fd < w.comm.biggestFd) → (0 ∈ fds → ¬ Expired w.comm 0) →
      ∃ w', runSteps (timeoutTurn input) w fds = .ok w' ∧ Handled fds w.comm w'.comm := by
  induction fds with
  | nil =>
      intro w _ _ _ _ _
      exact ⟨w, rfl, .nil w.comm⟩
  | cons fd fds ih =>
      intro w hheap htimers hnodup hlt hzero
      obtain ⟨hfresh, hnodup'⟩ := List.nodup_cons.mp hnodup
      obtain ⟨hfd, hlt'⟩ := List.forall_mem_cons.mp hlt
      by_cases hexp : Expired w.comm fd
      · have hpos : fd ≠ 0 := by
          rintro rfl
          exact hzero (List.mem_cons_self ..) hexp
        obtain ⟨w₁, hturn, hc, hheap₁⟩ := timeoutTurn_expired hheap htimers hexp hpos hfd input
        have hzero₁ : 0 ∈ fds → ¬ Expired w₁.comm 0 := by
          intro h0
          rw [expired_cleared hc (Ne.symm hpos)]
          exact hzero (List.mem_cons_of_mem _ h0)
        obtain ⟨w', hrun, hhandled⟩ := ih hheap₁ (htimers.cleared hc) hnodup'
          (by rw [hc.size]; exact hlt') hzero₁
        exact ⟨w', by rw [runSteps_cons_ok hturn, hrun], hhandled.cons_expired hc hexp hfresh⟩
      · have hturn : timeoutTurn input w fd = .ok w := by
          rw [timeoutTurn_inside hfd, checkTimeout_quiet hexp]
        obtain ⟨w', hrun, hhandled⟩ := ih hheap htimers hnodup' hlt'
          (fun h0 => hzero (List.mem_cons_of_mem _ h0))
        exact ⟨w', by rw [runSteps_cons_ok hturn, hrun], hhandled.cons_quiet hexp⟩

/-- In a state of the server whose entry 0 has not expired, the turns on the table do all that
    a pass has to do, and then the last turn reads the entry behind it. -/
theorem checkTimeouts_outOfBounds (input : Nat → Input Reply) {w : EchoWorld} (hheap : HeapInv w)
    (htimers : EchoTimers w.comm) (hzero : ¬ Expired w.comm 0) :
    (∃ w', runSteps (timeoutTurn input) w (List.range w.comm.biggestFd) = .ok w' ∧
      ∀ fd < w.comm.biggestFd,
        if Expired w.comm fd then
          (expiredFds w'.comm.log).count fd = (expiredFds w.comm.log).count fd + 1
        else
          (expiredFds w'.comm.log).count fd = (expiredFds w.comm.log).count fd ∧
            w'.comm.fdTable fd = w.comm.fdTable fd) ∧
    checkTimeouts input w = .error .outOfBounds := by
  have hturns := @timeoutTurns_expire input (List.range w.comm.biggestFd) w hheap htimers
    List.nodup_range (fun fd hfd => List.mem_range.mp hfd) fun _ => hzero
  obtain ⟨w', hrun, hhandled⟩ := hturns
  have hkeeps := runSteps_keeps (fun v fd hv => timeoutTurn_keeps hv input fd)
    (⟨rfl, htimers⟩ : ServerTable w.comm.biggestFd w) (List.range w.comm.biggestFd)
  have hsize : w'.comm.biggestFd = w.comm.biggestFd := (hkeeps.of_ok hrun).1
  refine ⟨⟨w', hrun, fun fd hfd => hhandled.once List.nodup_range (List.mem_range.mpr hfd)⟩, ?_⟩
  rw [checkTimeouts, List.range_succ, runSteps_append_ok hrun, runSteps,
    timeoutTurn_outside (Nat.le_of_eq hsize) input]

/-- No pass of `checkTimeouts` stays inside the table: its last turn looks at the entry behind
    it, if no turn before stops the program. -/
theorem timeoutPass_never (input : Nat → Input Reply) {w : EchoWorld} (htimers : EchoTimers w.comm) :
    ¬ TimeoutPass input w := by
  rintro ⟨w', hpass, _⟩
  have hkeep : ∀ v fd v', ServerTable w.comm.biggestFd v → timeoutTurn input v fd = .ok v' →
      ServerTable w.comm.biggestFd v' := fun v fd v' hv hturn =>
    (timeoutTurn_keeps hv input fd).of_ok hturn
  have hstop : ∀ v, ServerTable w.comm.biggestFd v →
      ∃ t, timeoutTurn input v w.comm.biggestFd = .error t := fun v hv =>
    ⟨.outOfBounds, timeoutTurn_outside (Nat.le_of_eq hv.1) input⟩
  obtain ⟨t, ht⟩ := runSteps_stops hkeep hstop
    (List.mem_range.mpr (Nat.lt_succ_self w.comm.biggestFd)) ⟨rfl, htimers⟩
  rw [checkTimeouts, ht] at hpass
  cases hpass

/-- Three entries, and the timeout of entry 1 was at 5. -/
def dueEntry : EchoWorld where
  comm := { (commInit 3 (fun _ => true) 9 : Comm Handler Nat) with
    sysCurtime := 9
    fdTable := update (fun _ => Fde.zero) 1
      { Fde.zero with timeoutHandler := some .doEchoTimeout, timeout := 5 } }
  app := { heap := fun _ => none, next := 0, written := [] }

/-- The calls of the handlers of the pass succeed. -/
def calm (_ : Nat) : Input Reply :=
  { clock := 9, gate := true, wait := some [], ctl := true
    reply := { accepted := none, allocated := true, incoming := none, sent := -1 } }

theorem echoTimers_dueEntry : EchoTimers dueEntry.comm := by
  intro fd
  by_cases h : fd = 1
  · rw [h]
    exact .inr rfl
  · have hzero : dueEntry.comm.fdTable fd = Fde.zero := by
      simp only [dueEntry, Function.update_of_ne h]
    rw [hzero]
    exact .inl rfl

theorem timeoutPass_never_due : Expired dueEntry.comm 1 ∧ ¬ TimeoutPass calm dueEntry :=
  ⟨by decide, timeoutPass_never calm echoTimers_dueEntry⟩

/-- The first three turns end well; entry 1 is handled and cleared.  The fourth one looks at
    entry 3 of three. -/
theorem not_timeoutPass_due :
    expiredFds dueEntry.comm.log = [] ∧
      (runSteps (timeoutTurn calm) dueEntry [0, 1, 2]).map (fun w => expiredFds w.comm.log)
        = .ok [1] ∧
      checkTimeouts calm dueEntry = .error .outOfBounds ∧ ¬ TimeoutPass calm dueEntry := by
  have hpass : checkTimeouts calm dueEntry = .error .outOfBounds := by rfl
  refine ⟨rfl, by rfl, hpass, ?_⟩
  rintro ⟨w', h, _⟩
  rw [hpass] at h
  cases h

end LinuxCodeDemos.Epoll

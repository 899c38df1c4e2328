/-
  LinuxCodeDemos.Ngx.Announce

  The messages of one call of `ngx_reap_children`.

  `announcements` is what the workers should be told, computed from the table
  before the call: for every child that died a CLOSE_CHANNEL to those that have
  not exited, for every respawned one an OPEN_CHANNEL to the others.  The code
  writes the same messages except that it goes on using the record of the latest
  OPEN_CHANNEL for the children after a respawned one (`carried`).  `ReapAt` is the
  state of the loop at the turn of a slot, in terms of the table before the call.
-/

import LinuxCodeDemos.Ngx.Slots

namespace LinuxCodeDemos.Ngx

open Function (update)

-- ============================================================================
-- What the workers should be told
-- ============================================================================

/-- What a successful spawn brings. -/
structure NewChild where
  pid : Nat
  channel : Nat × Nat
  deriving DecidableEq, Repr

/-- A message, the slot and the descriptor it is written to. -/
structure Message where
  slot : Nat
  fd : Int
  ch : Channel
  deriving DecidableEq, Repr

def messages (log : List Note) : List Message :=
  log.filterMap fun note => match note with
    | .write slot fd ch => some { slot, fd, ch }
    | .fork _ _ => none

namespace Master

variable (m : Master) (new : Nat → NewChild)

/-- The child of the slot has exited and has a channel to be closed. -/
def died (i : Nat) : Bool :=
  (m.processes i).pid ≠ -1 && (m.processes i).exited && !(m.processes i).detached

/-- Slot `n` has been respawned when it is the turn of slot `i`. -/
def renewed (i n : Nat) : Bool := n < i && m.respawns n

/-- The channel of slot `n` when it is the turn of slot `i`. -/
def channelAt (i n : Nat) : Int :=
  if m.renewed i n then (new n).channel.1 else (m.processes n).channel.1

/-- Slot `n` has a child with a channel that has not exited when it is the turn of
    slot `i`. -/
def notExited (i n : Nat) : Bool :=
  m.renewed i n || (m.processes n).pid ≠ -1 && !(m.processes n).exited &&
    (m.processes n).channel.1 ≠ -1

/-- Slot `n` has a child with a channel when slot `i` has been respawned: exited
    children whose turn is over are gone. -/
def present (i n : Nat) : Bool :=
  n ≠ i && (m.renewed i n || (m.processes n).pid ≠ -1 && (m.processes n).channel.1 ≠ -1 &&
    (!(m.processes n).exited || i < n))

/-- The messages about the death of the child of slot `i`. -/
def closeNotes (command : Command) (fd : Int) (i : Nat) : List Note :=
  ((List.range m.lastProcess).filter (m.notExited i)).map fun n =>
    .write n (m.channelAt new i n) { command, pid := (m.processes i).pid, slot := i, fd }

/-- The messages about the new child of slot `i`. -/
def openNotes (i : Nat) : List Note :=
  ((List.range m.lastProcess).filter (m.present i)).map fun n =>
    .write n (m.channelAt new i n)
      { command := .openChannel, pid := (new i).pid, slot := i, fd := (new i).channel.1 }

/-- Slot `i` after its turn. -/
def reaped (i : Nat) : Process :=
  let p := m.processes i
  if p.pid = -1 ∨ p.exited = false then p
  else if m.respawns i then
    { p with channel := ((new i).channel.1, (new i).channel.2), pid := (new i).pid, exited := false }
  else
    let p := if p.detached then p else { p with channel := (-1, -1) }
    if i + 1 = m.lastProcess then p else { p with pid := -1 }

/-- The table when it is the turn of slot `i`. -/
def tableAt (i n : Nat) : Process := if n < i then m.reaped new n else m.processes n

/-- The table that the new child of slot `i` starts with. -/
def viewAt (i : Nat) : Nat → Process :=
  update (m.tableAt new i) i
    { m.processes i with channel := ((new i).channel.1, (new i).channel.2) }

/-- The turn of slot `i`, with this command and descriptor for a death. -/
def turnNotes (command : Command) (fd : Int) (i : Nat) : List Note :=
  (if m.died i then m.closeNotes new command fd i else []) ++
    if m.respawns i then .fork i (m.viewAt new i) :: m.openNotes new i else []

/-- What the workers should be told. -/
def announcements : List Note :=
  (List.range m.lastProcess).flatMap (m.turnNotes new .closeChannel (-1))

/-- The command and the descriptor that `ch` holds when it is the turn of slot `i`. -/
def carried : Nat → Command × Int
  | 0 => (.closeChannel, -1)
  | i + 1 => if m.respawns i then (.openChannel, (new i).channel.1) else carried i

/-- The children when it is the turn of slot `i`. -/
def kidsAt : Nat → Nat → Kid
  | 0 => m.kids
  | i + 1 => if m.respawns i then update (kidsAt i) (new i).pid .running else kidsAt i

/-- `ngx_reap_children` with spawns that succeed. -/
def reapSpawning : Reaping :=
  m.reapChildren fun i => .success (new i).channel (new i).pid

/-- The ids of the new children are not in use. -/
structure SpawnsSucceed : Prop where
  pos : ∀ i < m.lastProcess, m.respawns i = true → 0 < (new i).pid
  absent : ∀ i < m.lastProcess, m.respawns i = true → m.kids (new i).pid = .absent
  distinct : ∀ i < m.lastProcess, m.respawns i = true → ∀ j < m.lastProcess, m.respawns j = true →
    (new i).pid = (new j).pid → i = j

end Master

-- ============================================================================
-- One turn
-- ============================================================================

/-- The state of the loop when it is the turn of slot `i`. -/
structure ReapAt (m : Master) (new : Nat → NewChild) (i : Nat) (r : Reaping) : Prop where
  processes : r.master.processes = m.tableAt new i
  lastProcess : i < m.lastProcess → r.master.lastProcess = m.lastProcess
  terminate : r.master.terminate = m.terminate
  quit : r.master.quit = m.quit
  kids : r.master.kids = m.kidsAt new i
  carried : (r.ch.command, r.ch.fd) = m.carried new i
  log : r.master.log
    = m.log ++ (List.range i).flatMap fun j =>
      m.turnNotes new (m.carried new j).1 (m.carried new j).2 j

section Turn

variable {m : Master} {new : Nat → NewChild} {i : Nat} {r : Reaping}

theorem tableAt_self (m : Master) (new : Nat → NewChild) (i : Nat) :
    m.tableAt new i i = m.processes i := if_neg (Nat.lt_irrefl i)

theorem tableAt_succ (m : Master) (new : Nat → NewChild) (i : Nat) :
    m.tableAt new (i + 1) = update (m.tableAt new i) i (m.reaped new i) := by
  funext n
  by_cases hn : n = i
  · rw [hn, Function.update_self, Master.tableAt, if_pos (Nat.lt_succ_self i)]
  · rw [Function.update_of_ne hn, Master.tableAt, Master.tableAt]
    by_cases hlt : n < i
    · rw [if_pos hlt, if_pos (Nat.lt_succ_of_lt hlt)]
    · rw [if_neg hlt, if_neg (by omega)]

theorem flatMap_range_succ {α : Type} (f : Nat → List α) (i : Nat) :
    (List.range (i + 1)).flatMap f = (List.range i).flatMap f ++ f i := by
  rw [List.range_succ, List.flatMap_append, List.flatMap_cons, List.flatMap_nil, List.append_nil]

/-- A turn that finds nothing to do. -/
theorem ReapAt.quiet (h : ReapAt m new i r) (hreaped : m.reaped new i = m.processes i)
    (hrespawn : m.respawns i = false) (hdied : m.died i = false) (live : Bool) :
    ReapAt m new (i + 1) { r with live } := by
  constructor
  case processes =>
    rw [tableAt_succ, hreaped, ← tableAt_self m new, Function.update_eq_self]
    exact h.processes
  case lastProcess => exact fun hi => h.lastProcess (Nat.lt_of_succ_lt hi)
  case terminate => exact h.terminate
  case quit => exact h.quit
  case kids =>
    rw [Master.kidsAt, hrespawn]
    exact h.kids
  case carried =>
    rw [Master.carried, hrespawn]
    exact h.carried
  case log =>
    have hnone : m.turnNotes new (m.carried new i).1 (m.carried new i).2 i = [] := by
      rw [Master.turnNotes, hdied, hrespawn]
      rfl
    rw [flatMap_range_succ, hnone, List.append_nil]
    exact h.log

theorem respawns_iff : m.respawns i = true ↔ (m.processes i).pid ≠ -1 ∧
    (m.processes i).exited = true ∧ (m.processes i).respawn = true ∧
    (m.processes i).exiting = false ∧ m.terminate = false ∧ m.quit = false := by
  simp only [Master.respawns, Bool.and_eq_true, decide_eq_true_eq, Bool.not_eq_true', and_assoc]

theorem not_quiet {n : Nat} (hpid : (m.processes n).pid ≠ -1)
    (hexited : (m.processes n).exited = true) :
    ¬ ((m.processes n).pid = -1 ∨ (m.processes n).exited = false) := by
  rw [hexited]
  simp [hpid]

theorem reaped_of_respawns {n : Nat} (h : m.respawns n = true) :
    m.reaped new n = { m.processes n with
      channel := ((new n).channel.1, (new n).channel.2), pid := (new n).pid, exited := false } := by
  obtain ⟨hpid, hexited, -⟩ := respawns_iff.mp h
  rw [Master.reaped]
  dsimp only
  rw [if_neg (not_quiet hpid hexited), if_pos h]

theorem reaped_of_not_respawns (new : Nat → NewChild) {n : Nat} (hpid : (m.processes n).pid ≠ -1)
    (hexited : (m.processes n).exited = true) (h : m.respawns n = false) :
    m.reaped new n =
      let p := if (m.processes n).detached then m.processes n else
        { m.processes n with channel := (-1, -1) }
      if n + 1 = m.lastProcess then p else { p with pid := -1 } := by
  rw [Master.reaped]
  dsimp only
  rw [if_neg (not_quiet hpid hexited), if_neg (Bool.eq_false_iff.mp h)]

/-- A slot whose child exited and was not started again. -/
theorem reaped_of_gone (new : Nat → NewChild) {n : Nat} (hpid : (m.processes n).pid ≠ -1)
    (hexited : (m.processes n).exited = true) (h : m.respawns n = false) :
    (m.reaped new n).exited = true ∧ (n + 1 ≠ m.lastProcess → (m.reaped new n).pid = -1) ∧
      ((m.processes n).detached = false → (m.reaped new n).channel.1 = -1) := by
  rw [reaped_of_not_respawns new hpid hexited h]
  dsimp only
  refine ⟨?_, ?_, ?_⟩
  · split <;> split <;> exact hexited
  · intro hlast
    rw [if_neg hlast]
  · intro hdetached
    rw [hdetached]
    split <;> rfl

/-- The table when it is the turn of slot `i`, slot by slot. -/
theorem tableAt_cases (m : Master) (new : Nat → NewChild) (i n : Nat) :
    (m.renewed i n = true ∧ m.tableAt new i n = { m.processes n with
      channel := ((new n).channel.1, (new n).channel.2), pid := (new n).pid, exited := false }) ∨
    (m.renewed i n = false ∧ m.tableAt new i n = m.processes n ∧
      (n < i → (m.processes n).pid = -1 ∨ (m.processes n).exited = false)) ∨
    (m.renewed i n = false ∧ n < i ∧ (m.processes n).exited = true ∧
      (m.tableAt new i n).exited = true ∧
      (n + 1 ≠ m.lastProcess → (m.tableAt new i n).pid = -1)) := by
  by_cases hlt : n < i
  · have htable : m.tableAt new i n = m.reaped new n := if_pos hlt
    have hrenewed : m.renewed i n = m.respawns n := by simp [Master.renewed, hlt]
    rw [hrenewed, htable]
    cases hrespawn : m.respawns n with
    | true => exact .inl ⟨rfl, reaped_of_respawns hrespawn⟩
    | false =>
        by_cases hquiet : (m.processes n).pid = -1 ∨ (m.processes n).exited = false
        · exact .inr (.inl ⟨rfl, if_pos hquiet, fun _ => hquiet⟩)
        · simp only [not_or, Bool.not_eq_false] at hquiet
          obtain ⟨hexited, hpid, -⟩ := reaped_of_gone new hquiet.1 hquiet.2 hrespawn
          exact .inr (.inr ⟨rfl, hlt, hquiet.2, hexited, hpid⟩)
  · have hrenewed : m.renewed i n = false := by simp [Master.renewed, hlt]
    exact .inr (.inl ⟨hrenewed, if_neg hlt, fun h => absurd h hlt⟩)

theorem natCast_ne_neg_one (n : Nat) : (n : Int) ≠ -1 := by omega

/-- The others that are told of a death. -/
theorem tableAt_notExited (m : Master) (new : Nat → NewChild) (i n : Nat) :
    (!(m.tableAt new i n).exited && (m.tableAt new i n).pid ≠ -1 &&
      (m.tableAt new i n).channel.1 ≠ -1) = m.notExited i n := by
  rcases tableAt_cases m new i n with ⟨hrenewed, htable⟩ | ⟨hrenewed, htable, -⟩ |
    ⟨hrenewed, -, hexited, hgone, -⟩
  · rw [htable]
    simp [Master.notExited, hrenewed, natCast_ne_neg_one]
  · rw [htable]
    simp [Master.notExited, hrenewed, Bool.and_comm]
  · simp [Master.notExited, hrenewed, hexited, hgone]

/-- The others that are told of a new child. -/
theorem tableAt_present (hi : i < m.lastProcess) (new : Nat → NewChild) (n : Nat) :
    (n ≠ i && (m.tableAt new i n).pid ≠ -1 && (m.tableAt new i n).channel.1 ≠ -1)
      = m.present i n := by
  by_cases hn : n = i
  · simp [Master.present, hn]
  · rcases tableAt_cases m new i n with ⟨hrenewed, htable⟩ | ⟨hrenewed, htable, hquiet⟩ |
      ⟨hrenewed, hlt, hexited, -, hpid⟩
    · rw [htable]
      simp [Master.present, hrenewed, hn, natCast_ne_neg_one]
    · rw [htable]
      rcases Nat.lt_or_gt_of_ne hn with hlt | hgt
      · rcases hquiet hlt with hpid | hexited
        · simp [Master.present, hrenewed, hpid]
        · simp [Master.present, hrenewed, hexited, hn]
      · simp [Master.present, hrenewed, hn, hgt]
    · have hno : ¬ i < n := by omega
      rw [hpid (by omega)]
      simp [Master.present, hrenewed, hexited, hno]

/-- The channels of those that are told something. -/
theorem tableAt_channel {n : Nat} (new : Nat → NewChild)
    (h : m.notExited i n = true ∨ m.present i n = true) :
    (m.tableAt new i n).channel.1 = m.channelAt new i n := by
  rcases tableAt_cases m new i n with ⟨hrenewed, htable⟩ | ⟨hrenewed, htable, -⟩ |
    ⟨hrenewed, hlt, hexited, -, -⟩
  · rw [htable, Master.channelAt, if_pos hrenewed]
  · rw [htable, Master.channelAt, if_neg (Bool.eq_false_iff.mp hrenewed)]
  · have hno : ¬ i < n := by omega
    simp [Master.notExited, Master.present, hrenewed, hexited, hno] at h

/-- The writes of a turn in terms of the table before the call. -/
theorem writesOf_eq {M : Master} {wants : Nat → Process → Bool} {told : Nat → Bool}
    (hlast : M.lastProcess = m.lastProcess)
    (hsame : ∀ n, n ≠ i → M.processes n = m.tableAt new i n)
    (hwants : ∀ n, wants n (M.processes n) = told n) (hself : told i = false)
    (htold : ∀ n, told n = true → m.notExited i n = true ∨ m.present i n = true) (ch : Channel) :
    M.writesOf wants ch = ((List.range m.lastProcess).filter told).map fun n =>
      .write n (m.channelAt new i n) ch := by
  have hfilter : (fun n => wants n (M.processes n)) = told := funext hwants
  rw [Master.writesOf, hlast, hfilter]
  apply List.map_congr_left
  intro n hn
  have hn := (List.mem_filter.mp hn).2
  have hne : n ≠ i := by
    intro heq
    rw [heq, hself] at hn
    cases hn
  rw [hsame n hne, tableAt_channel new (htold n hn)]

theorem notExited_self (h : (m.processes i).exited = true) : m.notExited i i = false := by
  simp [Master.notExited, Master.renewed, h]

/-- `ngx_close_channel` and its messages. -/
theorem ReapAt.closeChannel_log (h : ReapAt m new i r) (hi : i < m.lastProcess)
    (hexited : (m.processes i).exited = true) :
    (r.closeChannel i).master.log
      = r.master.log ++ m.closeNotes new (m.carried new i).1 (m.carried new i).2 i := by
  have hself : r.master.processes i = m.processes i := by
    rw [h.processes, tableAt_self]
  have hch : ({ r.ch with pid := (r.master.processes i).pid, slot := i } : Channel)
      = { command := (m.carried new i).1, pid := (m.processes i).pid, slot := i
          fd := (m.carried new i).2 } := by
    rw [hself, ← h.carried]
  show r.master.log ++ _ = r.master.log ++ _
  rw [hch]
  congr 1
  refine writesOf_eq ?_ ?_ ?_ (notExited_self hexited) (fun _ => .inl) _
  · exact h.lastProcess hi
  · intro n hn
    show update r.master.processes i _ n = _
    rw [Function.update_of_ne hn, h.processes]
  · intro n
    by_cases hn : n = i
    · simp [Master.setProcess, hn, hself, hexited, notExited_self hexited]
    · simp only [Master.setProcess, Function.update_of_ne hn, h.processes]
      exact tableAt_notExited m new i n

/-- The loop after the channel of slot `i` has been closed, or not. -/
structure ClosedAt (m : Master) (new : Nat → NewChild) (i : Nat) (r : Reaping) : Prop where
  processes : r.master.processes = update (m.tableAt new i) i
    (if (m.processes i).detached then m.processes i else
      { m.processes i with channel := (-1, -1) })
  lastProcess : r.master.lastProcess = m.lastProcess
  terminate : r.master.terminate = m.terminate
  quit : r.master.quit = m.quit
  kids : r.master.kids = m.kidsAt new i
  carried : (r.ch.command, r.ch.fd) = m.carried new i
  log : r.master.log = m.log ++ ((List.range i).flatMap fun j =>
      m.turnNotes new (m.carried new j).1 (m.carried new j).2 j) ++
    if m.died i then m.closeNotes new (m.carried new i).1 (m.carried new i).2 i else []

theorem ReapAt.close (h : ReapAt m new i r) (hi : i < m.lastProcess)
    (hpid : (m.processes i).pid ≠ -1) (hexited : (m.processes i).exited = true) :
    ClosedAt m new i (if !(m.processes i).detached then r.closeChannel i else r) := by
  have hself : r.master.processes i = m.processes i := by
    rw [h.processes, tableAt_self]
  cases hdetached : (m.processes i).detached with
  | true =>
      have hdied : m.died i = false := by simp [Master.died, hdetached]
      refine ⟨?_, h.lastProcess hi, h.terminate, h.quit, h.kids, h.carried, ?_⟩
      · rw [if_pos hdetached, ← tableAt_self m new i, Function.update_eq_self]
        exact h.processes
      · rw [hdied, if_neg Bool.false_ne_true, List.append_nil]
        exact h.log
  | false =>
      have hdied : m.died i = true := by simp [Master.died, hdetached, hpid, hexited]
      refine ⟨?_, h.lastProcess hi, h.terminate, h.quit, h.kids, h.carried, ?_⟩
      · rw [hdetached]
        show update r.master.processes i { r.master.processes i with channel := (-1, -1) } = _
        rw [hself, h.processes]
        rfl
      · rw [hdied, if_pos rfl, ← h.log]
        exact h.closeChannel_log hi hexited

/-- The child is not started again. -/
theorem ClosedAt.freeSlot (h : ClosedAt m new i r) (hpid : (m.processes i).pid ≠ -1)
    (hexited : (m.processes i).exited = true) (hrespawn : m.respawns i = false) :
    ReapAt m new (i + 1) (r.freeSlot i) := by
  have htable := tableAt_succ m new i
  rw [reaped_of_not_respawns new hpid hexited hrespawn] at htable
  have hlog : r.master.log = m.log ++ (List.range (i + 1)).flatMap fun j =>
      m.turnNotes new (m.carried new j).1 (m.carried new j).2 j := by
    rw [flatMap_range_succ, ← List.append_assoc, h.log, Master.turnNotes, hrespawn,
      if_neg Bool.false_ne_true, List.append_nil]
  have hkids : r.master.kids = m.kidsAt new (i + 1) := by
    rw [Master.kidsAt, hrespawn]
    exact h.kids
  have hcarried : (r.ch.command, r.ch.fd) = m.carried new (i + 1) := by
    rw [Master.carried, hrespawn]
    exact h.carried
  rw [Reaping.freeSlot, h.lastProcess]
  dsimp only at htable
  by_cases hlast : i + 1 = m.lastProcess
  · rw [if_pos hlast] at htable ⊢
    refine ⟨?_, fun hlt => absurd hlast (Nat.ne_of_lt hlt), h.terminate, h.quit, hkids, hcarried,
      hlog⟩
    rw [htable]
    exact h.processes
  · rw [if_neg hlast] at htable ⊢
    refine ⟨?_, fun _ => h.lastProcess, h.terminate, h.quit, hkids, hcarried, hlog⟩
    show update r.master.processes i { r.master.processes i with pid := -1 } = _
    rw [htable, h.processes, Function.update_self, Function.update_idem]

/-- The table after the new child of slot `i` has been entered. -/
theorem ClosedAt.entered_processes (h : ClosedAt m new i r) (hrespawn : m.respawns i = true) :
    (r.master.entered i i (new i).pid ((new i).channel.1, (new i).channel.2)).processes
      = m.tableAt new (i + 1) := by
  rw [tableAt_succ, reaped_of_respawns hrespawn]
  show update r.master.processes i
    ((r.master.processes i).spawned i ((new i).channel.1, (new i).channel.2) (new i).pid) = _
  rw [h.processes, Function.update_self, Function.update_idem, Process.spawned,
    if_pos (Int.natCast_nonneg i)]
  congr 1
  split <;> rfl

/-- The table that the new child starts with. -/
theorem ClosedAt.view (h : ClosedAt m new i r) :
    update r.master.processes i
        { r.master.processes i with channel := ((new i).channel.1, (new i).channel.2) }
      = m.viewAt new i := by
  rw [h.processes, Function.update_self, Function.update_idem, Master.viewAt]
  congr 1
  split <;> rfl

/-- `ngx_pass_open_channel` for the new child of slot `i`. -/
theorem ClosedAt.openNotes (h : ClosedAt m new i r) (hi : i < m.lastProcess)
    (hrespawn : m.respawns i = true) :
    Master.writesOf (fun n p => n ≠ i && p.pid ≠ -1 && p.channel.1 ≠ -1)
        { command := .openChannel, pid := (new i).pid, slot := i, fd := (new i).channel.1 }
        (r.master.entered i i (new i).pid ((new i).channel.1, (new i).channel.2))
      = m.openNotes new i := by
  have hprocesses := h.entered_processes hrespawn
  have hsame : ∀ n, n ≠ i → m.tableAt new (i + 1) n = m.tableAt new i n := by
    intro n hn
    rw [tableAt_succ, Function.update_of_ne hn]
  refine writesOf_eq ?_ ?_ ?_ ?_ (fun _ => .inr) _
  · rw [entered_lastProcess]
    exact h.lastProcess
  · intro n hn
    rw [hprocesses, hsame n hn]
  · intro n
    rw [hprocesses]
    by_cases hn : n = i
    · simp [hn, Master.present]
    · rw [hsame n hn]
      exact tableAt_present hi new n
  · simp [Master.present]

/-- The child is started again. -/
theorem ClosedAt.respawnChild (h : ClosedAt m new i r) (hi : i < m.lastProcess)
    (hrespawn : m.respawns i = true) (hpos : 0 < (new i).pid)
    (habsent : m.kidsAt new i (new i).pid = .absent) :
    ReapAt m new (i + 1) (r.respawnChild i (.success (new i).channel (new i).pid)) := by
  have hnotDetached : (i : Int) ≠ processDetached := by
    rw [processDetached]
    omega
  have hchannel : (SpawnOutcome.success (new i).channel (new i).pid).channel i
      = some (((new i).channel.1 : Int), ((new i).channel.2 : Int)) := by
    simp only [SpawnOutcome.channel, SpawnOutcome.success, if_pos hnotDetached, Bool.and_self,
      if_true]
  have hforked : r.master.forked i (.success (new i).channel (new i).pid) = some (new i).pid := by
    rw [Master.forked, hchannel, h.kids]
    exact if_pos ⟨hpos, habsent⟩
  rcases spawnProcess_cases i (.success (new i).channel (new i).pid) r.master with
    ⟨slot, channel, hfail, -⟩ | ⟨pid, channel, hchan, hpid, -, heq⟩
  · rcases hfail with ⟨hneg, -⟩ | hnone
    · omega
    · rw [hforked] at hnone
      cases hnone
  · rw [hforked, Option.some.injEq] at hpid
    rw [hchannel, Option.some.injEq] at hchan
    have hprocesses := h.entered_processes hrespawn
    have hself : (r.master.entered i i (new i).pid
        ((new i).channel.1, (new i).channel.2)).processes i
        = { m.processes i with
          channel := ((new i).channel.1, (new i).channel.2), pid := (new i).pid, exited := false } := by
      rw [hprocesses, tableAt_succ, Function.update_self, reaped_of_respawns hrespawn]
    have hslot : (r.master.entered i i (new i).pid
        ((new i).channel.1, (new i).channel.2)).processSlot = i := rfl
    rw [Reaping.respawnChild, heq, chooseSlot_of_slot, ← hpid, ← hchan]
    dsimp only
    rw [if_neg (by rw [invalidPid]; omega), hslot, hself]
    constructor
    case processes => exact hprocesses
    case lastProcess =>
      intro _
      have hlast := entered_lastProcess r.master i (new i).pid ((new i).channel.1, (new i).channel.2)
      exact hlast.trans h.lastProcess
    case terminate => exact h.terminate
    case quit => exact h.quit
    case kids =>
      show update r.master.kids (new i).pid .running = _
      rw [Master.kidsAt, hrespawn, if_pos rfl, h.kids]
    case carried =>
      rw [Master.carried, hrespawn]
      rfl
    case log =>
      refine Eq.trans (b := r.master.log ++ [.fork i (m.viewAt new i)] ++ m.openNotes new i) ?_ ?_
      · rw [← h.view, ← h.openNotes hi hrespawn]
        rfl
      · rw [flatMap_range_succ, Master.turnNotes, hrespawn, if_pos rfl, h.log]
        simp only [List.append_assoc, List.cons_append, List.nil_append]

/-- One turn of the loop. -/
theorem ReapAt.reapSlot (h : ReapAt m new i r) (hi : i < m.lastProcess)
    (hpos : m.respawns i = true → 0 < (new i).pid)
    (habsent : m.respawns i = true → m.kidsAt new i (new i).pid = .absent) :
    ReapAt m new (i + 1) (r.reapSlot (.success (new i).channel (new i).pid) i) := by
  have hself : r.master.processes i = m.processes i := by
    rw [h.processes, tableAt_self]
  rw [Reaping.reapSlot, hself]
  dsimp only
  by_cases hpid : (m.processes i).pid = -1
  · rw [if_pos hpid]
    exact h.quiet (if_pos (.inl hpid)) (by simp [Master.respawns, hpid])
      (by simp [Master.died, hpid]) r.live
  rw [if_neg hpid]
  cases hexited : (m.processes i).exited with
  | false =>
      have hquiet := h.quiet (if_pos (.inr hexited)) (by simp [Master.respawns, hexited])
        (by simp [Master.died, hexited])
      rw [if_neg Bool.false_ne_true]
      split
      · exact hquiet true
      · exact hquiet r.live
  | true =>
      have hclosed := h.close hi hpid hexited
      generalize (if !(m.processes i).detached then r.closeChannel i else r) = r' at hclosed
      rw [if_pos rfl, hclosed.terminate, hclosed.quit]
      have hcond : ((m.processes i).respawn && !(m.processes i).exiting && !m.terminate && !m.quit)
          = m.respawns i := by
        simp [Master.respawns, hpid, hexited]
      rw [hcond]
      cases hrespawn : m.respawns i with
      | true =>
          rw [if_pos rfl]
          exact hclosed.respawnChild hi hrespawn (hpos hrespawn) (habsent hrespawn)
      | false =>
          rw [if_neg Bool.false_ne_true]
          exact hclosed.freeSlot hpid hexited hrespawn

end Turn

-- ============================================================================
-- The whole call
-- ============================================================================

section Call

variable {m : Master} {new : Nat → NewChild}

/-- The id of a new child is not in use before its turn. -/
theorem kidsAt_absent (h : m.SpawnsSucceed new) {i : Nat} (hi : i < m.lastProcess)
    (hrespawn : m.respawns i = true) :
    ∀ j ≤ i, m.kidsAt new j (new i).pid = .absent := by
  intro j
  induction j with
  | zero => exact fun _ => h.absent i hi hrespawn
  | succ j ih =>
      intro hj
      have hold := ih (Nat.le_of_succ_le hj)
      rw [Master.kidsAt]
      split
      · next hother =>
        have hne : (new i).pid ≠ (new j).pid := by
          intro heq
          have := h.distinct i hi hrespawn j (by omega) hother heq
          omega
        rw [Function.update_of_ne hne]
        exact hold
      · exact hold

/-- A new child runs from its turn on. -/
theorem kidsAt_running {j : Nat} (hrespawn : m.respawns j = true) :
    ∀ i, j < i → m.kidsAt new i (new j).pid = .running := by
  intro i
  induction i with
  | zero => exact fun h => absurd h (Nat.not_lt_zero j)
  | succ i ih =>
      intro hji
      rw [Master.kidsAt]
      rcases Nat.lt_succ_iff_lt_or_eq.mp hji with hlt | heq
      · split
        · by_cases hpid : (new j).pid = (new i).pid
          · rw [hpid, Function.update_self]
          · rw [Function.update_of_ne hpid]
            exact ih hlt
        · exact ih hlt
      · rw [← heq, if_pos hrespawn, Function.update_self]

theorem ReapAt.start (m : Master) (new : Nat → NewChild) : ReapAt m new 0 (Reaping.start m) := by
  constructor
  case processes =>
    funext n
    rfl
  case lastProcess => exact fun _ => rfl
  case terminate => rfl
  case quit => rfl
  case kids => rfl
  case carried => rfl
  case log => exact (List.append_nil _).symm

/-- The loop of `ngx_reap_children`. -/
theorem reapAt_foldl (h : m.SpawnsSucceed new) : ∀ i ≤ m.lastProcess,
    ReapAt m new i ((List.range i).foldl
      (fun r i => if i < r.master.lastProcess then
        r.reapSlot (.success (new i).channel (new i).pid) i else r) (Reaping.start m)) := by
  intro i
  induction i with
  | zero => exact fun _ => ReapAt.start m new
  | succ i ih =>
      intro hi
      have hat := ih (Nat.le_of_succ_le hi)
      rw [List.range_succ, List.foldl_append, List.foldl_cons, List.foldl_nil,
        if_pos (by rw [hat.lastProcess hi]; exact hi)]
      exact hat.reapSlot hi (h.pos i hi) fun hrespawn =>
        kidsAt_absent h hi hrespawn i (Nat.le_refl i)

theorem reapAt_reapSpawning (h : m.SpawnsSucceed new) :
    ReapAt m new m.lastProcess (m.reapSpawning new) := reapAt_foldl h _ (Nat.le_refl _)

end Call

end LinuxCodeDemos.Ngx

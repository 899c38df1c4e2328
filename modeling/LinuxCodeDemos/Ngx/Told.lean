/-
  LinuxCodeDemos.Ngx.Told

  What the workers know after a call of `ngx_reap_children`.

  `Announced` says that the call writes `announcements`, that no OPEN_CHANNEL names
  a dead child, and that every worker that applies what it reads holds no channel
  of a child that died and was not started again.  A worker that is started in the
  call begins with the table of its fork and reads what is written after it.

  The messages differ from `announcements` in the record that the code carries from
  a respawned slot to the next child that died; `announced_iff` says that this is
  the only way to tell the workers something wrong.
-/

import LinuxCodeDemos.Ngx.Announce

namespace LinuxCodeDemos.Ngx

-- ============================================================================
-- Reading the messages
-- ============================================================================

/-- The messages to the child of slot `w`, oldest first. -/
def inbox (w : Nat) (log : List Note) : List Channel :=
  (messages log).filterMap fun msg => if msg.slot = w then some msg.ch else none

/-- `try_ngx_channel_handler` on these messages, each with the descriptor that came
    with it. -/
def Worker.receive (w : Worker) (received : List (Channel × Nat)) : Worker :=
  received.foldl (fun w x => w.channelHandler x.1 x.2) w

/-- The worker holds no channel of a child that died and was not started again. -/
def Worker.Forgets (w : Worker) (m : Master) : Prop :=
  ∀ d < m.lastProcess, m.died d = true → m.respawns d = false → w.channel d = -1

/-- What the call adds to the log. -/
def Master.written (m : Master) (new : Nat → NewChild) : List Note :=
  (m.reapSpawning new).master.log.drop m.log.length

/-- The workers are told the truth. -/
structure Announced (m : Master) (new : Nat → NewChild) : Prop where
  perm : (messages (m.written new)).Perm (messages (m.announcements new))
  alive : ∀ msg ∈ messages (m.written new), msg.ch.command = .openChannel →
    ∃ pid : Nat, msg.ch.pid = pid ∧ (m.reapSpawning new).master.kids pid = .running
  old : ∀ w < m.lastProcess, (m.processes w).pid ≠ -1 → (m.processes w).exited = false →
    (m.processes w).channel.1 ≠ -1 → ∀ (worker : Worker) (received : List (Channel × Nat)),
      received.map Prod.fst = inbox w (m.written new) → (worker.receive received).Forgets m
  started : ∀ w view before after, m.written new = before ++ .fork w view :: after →
    ∀ worker : Worker, (worker.channel = fun n => (view n).channel.1) →
      ∀ received : List (Channel × Nat), received.map Prod.fst = inbox w after →
        (worker.receive received).Forgets m

theorem mem_messages {log : List Note} {slot : Nat} {fd : Int} {ch : Channel} :
    ⟨slot, fd, ch⟩ ∈ messages log ↔ .write slot fd ch ∈ log := by
  rw [messages, List.mem_filterMap]
  refine ⟨?_, ?_⟩
  · rintro ⟨note, hmem, heq⟩
    cases note with
    | write slot fd ch =>
        cases heq
        exact hmem
    | fork slot view => cases heq
  · intro hmem
    exact ⟨_, hmem, rfl⟩

theorem mem_inbox {w : Nat} {log : List Note} {ch : Channel} :
    ch ∈ inbox w log ↔ ∃ fd, .write w fd ch ∈ log := by
  rw [inbox, List.mem_filterMap]
  refine ⟨?_, ?_⟩
  · rintro ⟨msg, hmem, heq⟩
    split at heq
    · next hslot =>
      cases heq
      rw [← hslot]
      exact ⟨msg.fd, mem_messages.mp hmem⟩
    · cases heq
  · rintro ⟨fd, hmem⟩
    exact ⟨⟨w, fd, ch⟩, mem_messages.mpr hmem, if_pos rfl⟩

/-- A message about another slot, or one that opens nothing, leaves a closed channel
    closed. -/
theorem channelHandler_closed {w : Worker} {d : Nat} (h : w.channel d = -1) (ch : Channel) (fd : Nat)
    (hopen : ch.command = .openChannel → ch.slot ≠ d) : (w.channelHandler ch fd).channel d = -1 := by
  rw [Worker.channelHandler]
  split
  case h_4 hcommand =>
    show Function.update w.channel ch.slot fd d = -1
    rw [Function.update_of_ne (hopen hcommand).symm]
    exact h
  case h_5 =>
    show Function.update w.channel ch.slot (-1) d = -1
    by_cases hd : d = ch.slot
    · rw [hd, Function.update_self]
    · rw [Function.update_of_ne hd]
      exact h
  all_goals exact h

theorem channelHandler_close {w : Worker} {ch : Channel} (h : ch.command = .closeChannel) (fd : Nat) :
    (w.channelHandler ch fd).channel ch.slot = -1 := by
  rw [Worker.channelHandler, h]
  exact Function.update_self ..

/-- A channel that is closed before or by one of the messages, and opened by none. -/
theorem receive_closed {d : Nat} {received : List (Channel × Nat)}
    (hopen : ∀ ch ∈ received.map Prod.fst, ch.command = .openChannel → ch.slot ≠ d) (w : Worker)
    (h : w.channel d = -1 ∨
      ∃ ch ∈ received.map Prod.fst, ch.command = .closeChannel ∧ ch.slot = d) :
    (w.receive received).channel d = -1 := by
  induction received generalizing w with
  | nil =>
      rcases h with h | ⟨ch, hmem, -⟩
      · exact h
      · cases hmem
  | cons x received ih =>
      rw [List.map_cons] at hopen h
      apply ih (fun ch hmem => hopen ch (List.mem_cons_of_mem _ hmem)) (w.channelHandler x.1 x.2)
      rcases h with h | ⟨ch, hmem, hclose, hslot⟩
      · exact .inl (channelHandler_closed h x.1 x.2 (hopen x.1 List.mem_cons_self))
      · rcases List.mem_cons.mp hmem with heq | hmem
        · rw [heq] at hclose hslot
          rw [← hslot]
          exact .inl (channelHandler_close hclose x.2)
        · exact .inr ⟨ch, hmem, hclose, hslot⟩

-- ============================================================================
-- The messages of a turn
-- ============================================================================

section Turn

variable {m : Master} {new : Nat → NewChild} {command : Command} {fd : Int} {i : Nat}

theorem mem_closeNotes {note : Note} : note ∈ m.closeNotes new command fd i ↔
    ∃ n < m.lastProcess, m.notExited i n = true ∧ .write n (m.channelAt new i n)
      { command, pid := (m.processes i).pid, slot := i, fd } = note := by
  simp only [Master.closeNotes, List.mem_map, List.mem_filter, List.mem_range, and_assoc]

theorem mem_openNotes {note : Note} : note ∈ m.openNotes new i ↔
    ∃ n < m.lastProcess, m.present i n = true ∧ .write n (m.channelAt new i n)
      { command := .openChannel, pid := (new i).pid, slot := i, fd := (new i).channel.1 } = note := by
  simp only [Master.openNotes, List.mem_map, List.mem_filter, List.mem_range, and_assoc]

theorem mem_turnNotes {note : Note} : note ∈ m.turnNotes new command fd i ↔
    m.died i = true ∧ note ∈ m.closeNotes new command fd i ∨
    m.respawns i = true ∧ (note = .fork i (m.viewAt new i) ∨ note ∈ m.openNotes new i) := by
  rw [Master.turnNotes, List.mem_append]
  cases m.died i <;> cases m.respawns i <;> simp

/-- A message of a turn is about the slot of the turn. -/
theorem write_mem_turnNotes {n : Nat} {socket : Int} {ch : Channel}
    (h : .write n socket ch ∈ m.turnNotes new command fd i) :
    ch.slot = i ∧ (ch.command = command ∨
      ch.command = .openChannel ∧ m.respawns i = true ∧ ch.pid = (new i).pid) := by
  rcases mem_turnNotes.mp h with ⟨-, h⟩ | ⟨hrespawn, h | h⟩
  · obtain ⟨_, -, -, heq⟩ := mem_closeNotes.mp h
    cases heq
    exact ⟨rfl, .inl rfl⟩
  · cases h
  · obtain ⟨_, -, -, heq⟩ := mem_openNotes.mp h
    cases heq
    exact ⟨rfl, .inr ⟨rfl, hrespawn, rfl⟩⟩

theorem fork_mem_turnNotes {w : Nat} {view : Nat → Process}
    (h : .fork w view ∈ m.turnNotes new command fd i) :
    w = i ∧ m.respawns i = true ∧ view = m.viewAt new i := by
  rcases mem_turnNotes.mp h with ⟨-, h⟩ | ⟨hrespawn, h | h⟩
  · obtain ⟨_, -, -, heq⟩ := mem_closeNotes.mp h
    cases heq
  · cases h
    exact ⟨rfl, hrespawn, rfl⟩
  · obtain ⟨_, -, -, heq⟩ := mem_openNotes.mp h
    cases heq

/-- The message about a death. -/
theorem close_mem_turnNotes (new : Nat → NewChild) {w : Nat} (hw : w < m.lastProcess)
    (hdied : m.died i = true) (hlive : m.notExited i w = true) :
    .write w (m.channelAt new i w) { command, pid := (m.processes i).pid, slot := i, fd }
      ∈ m.turnNotes new command fd i :=
  mem_turnNotes.mpr (.inl ⟨hdied, mem_closeNotes.mpr ⟨w, hw, hlive, rfl⟩⟩)

end Turn

-- ============================================================================
-- The record that is carried on
-- ============================================================================

section Carried

variable {m : Master} {new : Nat → NewChild} {i : Nat}

theorem carried_of_none (h : ∀ r < i, m.respawns r = false) :
    m.carried new i = (.closeChannel, -1) := by
  induction i with
  | zero => rfl
  | succ i ih =>
      rw [Master.carried, h i (Nat.lt_succ_self i)]
      exact ih fun r hr => h r (Nat.lt_succ_of_lt hr)

/-- After a respawned slot the record says OPEN_CHANNEL. -/
theorem carried_of_respawns {r : Nat} (hr : r < i) (h : m.respawns r = true) :
    (m.carried new i).1 = .openChannel := by
  induction i with
  | zero => exact absurd hr (Nat.not_lt_zero r)
  | succ i ih =>
      rw [Master.carried]
      split
      · rfl
      · next hno =>
        apply ih
        rcases Nat.lt_succ_iff_lt_or_eq.mp hr with hlt | heq
        · exact hlt
        · rw [heq] at h
          exact absurd h hno

theorem written_eq (h : m.SpawnsSucceed new) :
    m.written new = (List.range m.lastProcess).flatMap fun j =>
      m.turnNotes new (m.carried new j).1 (m.carried new j).2 j := by
  rw [Master.written, (reapAt_reapSpawning h).log, List.drop_left]

/-- No slot that is respawned comes before the slot of another child that died. -/
def Master.DeathsFirst (m : Master) : Prop :=
  ∀ r i, r < i → i < m.lastProcess → m.respawns r = true → m.died i = false

theorem written_eq_announcements (h : m.SpawnsSucceed new) (hfirst : m.DeathsFirst) :
    m.written new = m.announcements new := by
  rw [written_eq h, Master.announcements]
  apply List.flatMap_congr
  intro i hi
  cases hdied : m.died i with
  | false =>
      -- nothing is said about a death, so the record does not matter
      rw [Master.turnNotes, Master.turnNotes, hdied]
      rfl
  | true =>
      have hnone : ∀ r < i, m.respawns r = false := by
        intro r hr
        cases hrespawn : m.respawns r with
        | false => rfl
        | true =>
            rw [hfirst r i hr (List.mem_range.mp hi) hrespawn] at hdied
            cases hdied
      rw [carried_of_none hnone]

end Carried

-- ============================================================================
-- What the workers hold
-- ============================================================================

section Workers

variable {m : Master} {new : Nat → NewChild}

theorem mem_announcements {note : Note} : note ∈ m.announcements new ↔
    ∃ i < m.lastProcess, note ∈ m.turnNotes new .closeChannel (-1) i := by
  simp only [Master.announcements, List.mem_flatMap, List.mem_range]

/-- OPEN_CHANNEL is about a new child. -/
theorem open_mem_announcements {n : Nat} {socket : Int} {ch : Channel}
    (h : .write n socket ch ∈ m.announcements new) (hopen : ch.command = .openChannel) :
    ch.slot < m.lastProcess ∧ m.respawns ch.slot = true ∧ ch.pid = (new ch.slot).pid := by
  obtain ⟨i, hi, hmem⟩ := mem_announcements.mp h
  obtain ⟨hslot, hcommand | ⟨-, hrespawn, hpid⟩⟩ := write_mem_turnNotes hmem
  · rw [hopen] at hcommand
    cases hcommand
  · rw [hslot]
    exact ⟨hi, hrespawn, hpid⟩

/-- A worker that holds no channel of `d`, or reads that `d` died. -/
theorem receive_announced {w d : Nat} {log : List Note} {received : List (Channel × Nat)}
    (hsub : ∀ note ∈ log, note ∈ m.announcements new) (hread : received.map Prod.fst = inbox w log)
    (hd : m.respawns d = false) {worker : Worker}
    (h : worker.channel d = -1 ∨
      ∃ ch ∈ inbox w log, ch.command = .closeChannel ∧ ch.slot = d) :
    (worker.receive received).channel d = -1 := by
  rw [← hread] at h
  apply receive_closed _ worker h
  intro ch hch hopen hslot
  rw [hread] at hch
  obtain ⟨socket, hmem⟩ := mem_inbox.mp hch
  obtain ⟨-, hrespawn, -⟩ := open_mem_announcements (hsub _ hmem) hopen
  rw [hslot, hd] at hrespawn
  cases hrespawn

/-- A worker that has not exited reads of every death. -/
theorem forgets_old {w : Nat} (hw : w < m.lastProcess) (hpid : (m.processes w).pid ≠ -1)
    (hexited : (m.processes w).exited = false) (hchannel : (m.processes w).channel.1 ≠ -1)
    (worker : Worker) {received : List (Channel × Nat)}
    (hread : received.map Prod.fst = inbox w (m.announcements new)) :
    (worker.receive received).Forgets m := by
  intro d hd hdied hrespawn
  have hlive : m.notExited d w = true := by
    simp [Master.notExited, hpid, hexited, hchannel]
  have hmem := mem_announcements.mpr ⟨d, hd, close_mem_turnNotes new hw hdied hlive⟩
  exact receive_announced (fun _ h => h) hread hrespawn
    (.inr ⟨_, mem_inbox.mpr ⟨_, hmem⟩, rfl, rfl⟩)

/-- The slots before and after `w` in the loop. -/
theorem range_split {w n : Nat} (hw : w < n) : ∃ before after,
    List.range n = before ++ w :: after ∧ (∀ j ∈ before, j < w) ∧ (∀ j ∈ after, w < j) := by
  obtain ⟨before, after, hsplit⟩ := List.append_of_mem (List.mem_range.mpr hw)
  have hpair : (List.range n).Pairwise (· < ·) := List.pairwise_lt_range
  rw [hsplit, List.pairwise_append, List.pairwise_cons] at hpair
  obtain ⟨-, ⟨hafter, -⟩, hbefore⟩ := hpair
  exact ⟨before, after, hsplit, fun j hj => hbefore j hj w List.mem_cons_self, hafter⟩

/-- What is written after the fork of slot `w` has the turns of the later slots. -/
theorem mem_after_fork {w : Nat} {view : Nat → Process} {before after : List Note}
    (h : m.announcements new = before ++ .fork w view :: after) {d : Nat} (hd : d < m.lastProcess)
    (hwd : w < d) {note : Note} (hnote : note ∈ m.turnNotes new .closeChannel (-1) d) :
    note ∈ after := by
  have hfork : .fork w view ∈ m.announcements new := by
    rw [h]
    exact List.mem_append_right _ List.mem_cons_self
  obtain ⟨i, hi, hmem⟩ := mem_announcements.mp hfork
  obtain ⟨hwi, hrespawn, -⟩ := fork_mem_turnNotes hmem
  rw [← hwi] at hi hrespawn
  obtain ⟨front, back, hsplit, hfront, hback⟩ := range_split hi
  have hno : ∀ slots : List Nat, (∀ j ∈ slots, j ≠ w) →
      .fork w view ∉ slots.flatMap (m.turnNotes new .closeChannel (-1)) := by
    intro slots hslots hmem
    obtain ⟨j, hj, hmem⟩ := List.mem_flatMap.mp hmem
    exact hslots j hj (fork_mem_turnNotes hmem).1.symm
  have hclose : .fork w view ∉
      if m.died w then m.closeNotes new .closeChannel (-1) w else [] := by
    split
    · intro hmem
      obtain ⟨_, -, -, heq⟩ := mem_closeNotes.mp hmem
      cases heq
    · exact List.not_mem_nil
  have hopen : .fork w view ∉ m.openNotes new w := by
    intro hmem
    obtain ⟨_, -, -, heq⟩ := mem_openNotes.mp hmem
    cases heq
  rw [Master.announcements, hsplit, List.flatMap_append, List.flatMap_cons, Master.turnNotes,
    if_pos hrespawn, List.append_assoc, List.cons_append, ← List.append_assoc] at h
  have hafter := ((List.append_cons_inj_of_notMem
    (List.not_mem_append (hno front fun j hj => Nat.ne_of_lt (hfront j hj)) hclose)
    (List.not_mem_append hopen (hno back fun j hj => Nat.ne_of_gt (hback j hj)))).mp h).2.2
  rw [← hafter]
  apply List.mem_append_right
  have hmem : d ∈ front ++ w :: back := by
    rw [← hsplit]
    exact List.mem_range.mpr hd
  rcases List.mem_append.mp hmem with hmem | hmem
  · exact absurd (hfront d hmem) (by omega)
  · rcases List.mem_cons.mp hmem with heq | hmem
    · omega
    · exact List.mem_flatMap.mpr ⟨d, hmem, hnote⟩

/-- The table of a new child has no channel of a child that was gone before. -/
theorem viewAt_channel {w d : Nat} (hdw : d < w) (hdied : m.died d = true)
    (hrespawn : m.respawns d = false) : (m.viewAt new w d).channel.1 = -1 := by
  simp only [Master.died, Bool.and_eq_true, decide_eq_true_eq, Bool.not_eq_true'] at hdied
  obtain ⟨⟨hpid, hexited⟩, hdetached⟩ := hdied
  obtain ⟨-, -, hchannel⟩ := reaped_of_gone new hpid hexited hrespawn
  rw [Master.viewAt, Function.update_of_ne (Nat.ne_of_lt hdw), Master.tableAt, if_pos hdw]
  exact hchannel hdetached

/-- A new worker starts without the channels of the slots before its own, and reads
    of the deaths after. -/
theorem forgets_started {w : Nat} {view : Nat → Process} {before after : List Note}
    (h : m.announcements new = before ++ .fork w view :: after) {worker : Worker}
    (hview : worker.channel = fun n => (view n).channel.1) {received : List (Channel × Nat)}
    (hread : received.map Prod.fst = inbox w after) :
    (worker.receive received).Forgets m := by
  intro d hd hdied hrespawn
  have hsub : ∀ note ∈ after, note ∈ m.announcements new := by
    intro note hnote
    rw [h]
    exact List.mem_append_right _ (List.mem_cons_of_mem _ hnote)
  have hfork : .fork w view ∈ m.announcements new := by
    rw [h]
    exact List.mem_append_right _ List.mem_cons_self
  obtain ⟨i, hi, hmem⟩ := mem_announcements.mp hfork
  obtain ⟨hwi, hw, hviewAt⟩ := fork_mem_turnNotes hmem
  rw [← hwi] at hi hw hviewAt
  apply receive_announced hsub hread hrespawn
  rcases Nat.lt_trichotomy d w with hlt | heq | hgt
  · left
    rw [hview, hviewAt]
    exact viewAt_channel hlt hdied hrespawn
  · rw [heq, hw] at hrespawn
    cases hrespawn
  · right
    have hlive : m.notExited d w = true := by
      simp [Master.notExited, Master.renewed, hgt, hw]
    have hclose := mem_after_fork h hd hgt (close_mem_turnNotes new hi hdied hlive)
    exact ⟨_, mem_inbox.mpr ⟨_, hclose⟩, rfl, rfl⟩

/-- The new children run, so OPEN_CHANNEL names none that died. -/
theorem open_alive (h : m.SpawnsSucceed new) {msg : Message}
    (hmem : msg ∈ messages (m.announcements new)) (hopen : msg.ch.command = .openChannel) :
    ∃ pid : Nat, msg.ch.pid = pid ∧ (m.reapSpawning new).master.kids pid = .running := by
  obtain ⟨hslot, hrespawn, hpid⟩ := open_mem_announcements (mem_messages.mp hmem) hopen
  refine ⟨(new msg.ch.slot).pid, hpid, ?_⟩
  rw [(reapAt_reapSpawning h).kids]
  exact kidsAt_running hrespawn m.lastProcess hslot

/-- A respawned worker is not told of a later death. -/
theorem close_not_written (h : m.SpawnsSucceed new) {r i : Nat} (hr : r < i)
    (hrespawn : m.respawns r = true) {msg : Message} (hcommand : msg.ch.command = .closeChannel)
    (hslot : msg.ch.slot = i) : msg ∉ messages (m.written new) := by
  intro hmem
  have hwrite := mem_messages.mp hmem
  rw [written_eq h] at hwrite
  obtain ⟨j, -, hturn⟩ := List.mem_flatMap.mp hwrite
  obtain ⟨hj, hcarried | ⟨hopen, -⟩⟩ := write_mem_turnNotes hturn
  · rw [← hj, hslot, carried_of_respawns hr hrespawn, hcommand] at hcarried
    cases hcarried
  · rw [hcommand] at hopen
    cases hopen

/-- One call of `ngx_reap_children` tells the workers the truth exactly when no slot
    that it respawns comes before the slot of another child that died. -/
theorem announced_iff (h : m.SpawnsSucceed new) : Announced m new ↔ m.DeathsFirst := by
  refine ⟨?_, ?_⟩
  · intro hannounced r i hr hi hrespawn
    by_contra hdied
    rw [Bool.not_eq_false] at hdied
    have hlive : m.notExited i r = true := by
      simp [Master.notExited, Master.renewed, hr, hrespawn]
    have hclose := mem_announcements.mpr
      ⟨i, hi, close_mem_turnNotes new (Nat.lt_trans hr hi) hdied hlive⟩
    have hmem := hannounced.perm.mem_iff.mpr (mem_messages.mpr hclose)
    exact close_not_written h hr hrespawn rfl rfl hmem
  · intro hfirst
    have heq := written_eq_announcements h hfirst
    constructor
    case perm => rw [heq]
    case alive =>
      rw [heq]
      exact fun msg => open_alive h
    case old =>
      rw [heq]
      intro w hw hpid hexited hchannel worker received
      exact forgets_old hw hpid hexited hchannel worker
    case started =>
      rw [heq]
      intro w view before after hsplit worker hview received
      exact forgets_started hsplit hview

end Workers

-- ----------------------------------------------------------------------------
-- Three workers
-- ----------------------------------------------------------------------------

/-- Three workers are started. -/
def threeWorkers : Master :=
  let m := (Master.start.spawnProcess processRespawn (.success (3, 4) 100)).2
  let m := (m.spawnProcess processRespawn (.success (5, 6) 101)).2
  (m.spawnProcess processRespawn (.success (7, 8) 102)).2

/-- Two of them exit; the first for good, with exit code 2. -/
def twoExited (gone again : Nat) : Master :=
  ((threeWorkers.exitChild gone 512).exitChild again 0).processGetStatus [gone, again]

def freshChild (i : Nat) : NewChild :=
  { pid := 200 + i, channel := (10 + 2 * i, 11 + 2 * i) }

theorem freshChild_spawns {m : Master} (h : ∀ i < m.lastProcess, m.kids (200 + i) = .absent) :
    m.SpawnsSucceed freshChild := by
  refine ⟨?_, fun i hi _ => h i hi, ?_⟩
  · intro i _ _
    exact Nat.lt_of_lt_of_le (by decide) (Nat.le_add_right 200 i)
  · intro i _ _ j _ _ heq
    exact Nat.add_left_cancel heq

theorem announced_lastRespawned :
    (twoExited 100 102).SpawnsSucceed freshChild ∧ Announced (twoExited 100 102) freshChild := by
  have hspawns : (twoExited 100 102).SpawnsSucceed freshChild := freshChild_spawns (by decide)
  refine ⟨hspawns, (announced_iff hspawns).mpr ?_⟩
  intro r i hr hi hrespawn
  have hbounded : ∀ i < (twoExited 100 102).lastProcess, ∀ r < i,
      (twoExited 100 102).respawns r = true → (twoExited 100 102).died i = false := by decide
  exact hbounded i hi r hr hrespawn

/-- Worker 0 is started again, worker 1 is not: worker 2 is told that the dead child
    101 has the channel of the new worker 0. -/
theorem openChannel_names_dead :
    (twoExited 101 100).SpawnsSucceed freshChild ∧
    ⟨2, 7, { command := .openChannel, pid := 101, slot := 1, fd := 10 }⟩
      ∈ messages ((twoExited 101 100).written freshChild) ∧
    ((twoExited 101 100).reapSpawning freshChild).master.kids 101 = .absent ∧
    ¬ Announced (twoExited 101 100) freshChild := by
  have hspawns : (twoExited 101 100).SpawnsSucceed freshChild := freshChild_spawns (by decide)
  have hmem : (⟨2, 7, { command := .openChannel, pid := 101, slot := 1, fd := 10 }⟩ : Message)
      ∈ messages ((twoExited 101 100).written freshChild) := by decide
  have hdead : ((twoExited 101 100).reapSpawning freshChild).master.kids 101 = .absent := by
    decide
  refine ⟨hspawns, hmem, hdead, ?_⟩
  intro hannounced
  obtain ⟨pid, hpid, hrunning⟩ := hannounced.alive _ hmem rfl
  have heq : pid = 101 := by
    change (101 : Int) = (pid : Int) at hpid
    omega
  rw [heq, hdead] at hrunning
  cases hrunning

end LinuxCodeDemos.Ngx

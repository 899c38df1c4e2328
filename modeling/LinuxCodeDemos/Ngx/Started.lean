/-
  LinuxCodeDemos.Ngx.Started

  The messages of one call of `ngx_start_worker_processes`.

  After each spawn the call announces what slot `ngx_process_slot` holds, whether or not the
  spawn has succeeded.  A spawn that fails before `fork` leaves `ngx_process_slot` as it was, one
  that fails at `fork` moves it to a slot without a child.  So the others are told of children of
  this call only exactly if, whenever there is someone to tell, the latest spawn that got as far
  as `fork` has its child (`announcesForked_iff`).
-/

import LinuxCodeDemos.Ngx.Announce
import LinuxCodeDemos.Ngx.Cycle

namespace LinuxCodeDemos.Ngx

open Function (update)

-- ============================================================================
-- Definitions
-- ============================================================================

namespace Master

/-- The child that a spawn forks, in the form in which it should be announced. -/
def newChild (m : Master) (type : Int) (o : SpawnOutcome) : Option Channel :=
  if m.reachesFork type o then
    match o.channel type, m.forked type o with
    | some channel, some pid =>
        some { command := .openChannel, pid, slot := m.chooseSlot type, fd := channel.1 }
    | _, _ => none
  else none

/-- Some worker other than the one to be announced has a channel. -/
def hasPeer (m : Master) (type : Int) (o : SpawnOutcome) : Prop :=
  ∃ k < m.lastProcess, k ≠ (if m.reachesFork type o then m.chooseSlot type else m.processSlot) ∧
    (m.processes k).pid ≠ -1 ∧ (m.processes k).channel.1 ≠ -1

/-- What the call announces: the contents of slot `ngx_process_slot`. -/
def shown (m : Master) : Channel :=
  { command := .openChannel
    pid := (m.processes m.processSlot).pid
    slot := m.processSlot
    fd := (m.processes m.processSlot).channel.1 }

section Call

variable (m : Master) (type : Int) (outcomes : Nat → SpawnOutcome)

/-- The child that turn `i` of the call forks. -/
def childOf (i : Nat) : Option Channel :=
  (m.startWorkerProcesses i type outcomes).newChild type (outcomes i)

/-- What turn `i` of the call passes to the others. -/
def told (i : Nat) : List Message :=
  (messages (m.startWorkerProcesses (i + 1) type outcomes).log).drop
    (messages (m.startWorkerProcesses i type outcomes).log).length

/-- Every message carries the slot, the id and the open `channel[0]` of a child that the call has
    forked. -/
def AnnouncesForked (n : Nat) : Prop :=
  ∀ i < n, ∀ msg ∈ m.told type outcomes i,
    msg.ch.fd ≠ -1 ∧ ∃ j ≤ i, m.childOf type outcomes j = some msg.ch

/-- The latest of the first `i` turns that gets as far as `fork` has its child. -/
def latestForked : Nat → Bool
  | 0 => false
  | i + 1 =>
      if (m.startWorkerProcesses i type outcomes).reachesFork type (outcomes i) then
        (m.childOf type outcomes i).isSome
      else latestForked i

end Call

end Master

/-- The table and `ngx_process_slot` after some spawns of a call: `children` are those forked so
    far, `live` says whether the latest spawn that came to `fork` has its child. -/
structure Recorded (children : Channel → Prop) (live : Bool) (m : Master) : Prop where
  kept : ∀ ch, children ch → ch.slot < m.lastProcess ∧ (m.processes ch.slot).pid = ch.pid ∧
    (m.processes ch.slot).channel.1 = ch.fd ∧ ch.pid ≠ -1 ∧ ch.command = .openChannel
  announced : live = true → ∃ ch, children ch ∧ ch.slot = m.processSlot
  stale : live = false → ∀ ch, children ch → ch.slot ≠ m.processSlot

-- ============================================================================
-- One spawn
-- ============================================================================

section Spawn

variable {m : Master} {type : Int} {o : SpawnOutcome} {children : Channel → Prop} {live : Bool}

/-- The slot of a spawn is not the slot of a child. -/
theorem chooseSlot_free (htype : type < 0) (m : Master) :
    m.chooseSlot type < m.lastProcess → (m.processes (m.chooseSlot type)).pid = -1 := by
  intro hlt
  rw [Master.chooseSlot, if_neg (by omega)] at hlt ⊢
  cases hfind : (List.range m.lastProcess).find? fun s => (m.processes s).pid = invalidPid with
  | none =>
      rw [hfind] at hlt
      exact absurd hlt (Nat.lt_irrefl _)
  | some s =>
      have hfree := List.find?_some hfind
      exact of_decide_eq_true hfree

theorem Recorded.slot_ne (h : Recorded children live m) (htype : type < 0) {ch : Channel}
    (hch : children ch) : ch.slot ≠ m.chooseSlot type := by
  obtain ⟨hlt, hpid, -, hne, -⟩ := h.kept ch hch
  intro heq
  rw [heq] at hlt hpid
  rw [chooseSlot_free htype m hlt] at hpid
  exact hne hpid.symm

theorem newChild_of_exit (h : m.reachesFork type o = false ∨ m.forked type o = none) :
    m.newChild type o = none := by
  rw [Master.newChild]
  rcases h with h | h
  · rw [h]
    rfl
  · rw [h]
    split
    · cases o.channel type <;> rfl
    · rfl

theorem newChild_of_fork {pid : Nat} {channel : Int × Int} (hreaches : m.reachesFork type o = true)
    (hchannel : o.channel type = some channel) (hforked : m.forked type o = some pid) :
    m.newChild type o
      = some { command := .openChannel, pid, slot := m.chooseSlot type, fd := channel.1 } := by
  rw [Master.newChild, if_pos hreaches, hchannel, hforked]

theorem spawned_pid (p : Process) (respawn : Int) (channel : Int × Int) (pid : Nat) :
    (p.spawned respawn channel pid).pid = pid :=
  congrArg Entry.pid (entry_spawned respawn channel pid p)

theorem spawned_channel (p : Process) (respawn : Int) (channel : Int × Int) (pid : Nat) :
    (p.spawned respawn channel pid).channel = channel := by
  rw [Process.spawned]
  split
  · rfl
  · simp only [Master.kindOf]
    repeat' split
    all_goals rfl

/-- A spawn keeps the record, with its child added. -/
theorem Recorded.spawnProcess (h : Recorded children live m) (htype : type < 0)
    (o : SpawnOutcome) :
    Recorded (fun ch => children ch ∨ m.newChild type o = some ch)
      (if m.reachesFork type o then (m.newChild type o).isSome else live)
      (m.spawnProcess type o).2 := by
  have hother : ∀ ch, children ch → ch.slot ≠ m.chooseSlot type := fun ch => h.slot_ne htype
  rcases spawnProcess_exits type o m with ⟨channel, hnot, heq⟩ | ⟨channel, hreaches, hforked, heq⟩ |
    ⟨pid, channel, hreaches, hchannel, hforked, heq⟩
  · rw [heq, hnot, newChild_of_exit (.inl hnot)]
    simp only [reduceCtorEq, or_false, Bool.false_eq_true, if_false]
    refine ⟨?_, h.announced, h.stale⟩
    intro ch hch
    show ch.slot < m.lastProcess ∧ (update m.processes _ _ ch.slot).pid = _ ∧
      (update m.processes _ _ ch.slot).channel.1 = _ ∧ _
    rw [Function.update_of_ne (hother ch hch)]
    exact h.kept ch hch
  · rw [heq, hreaches, newChild_of_exit (.inr hforked)]
    simp only [reduceCtorEq, or_false, if_true, Option.isSome_none]
    refine ⟨?_, fun hlive => (nomatch hlive), fun _ => hother⟩
    intro ch hch
    show ch.slot < m.lastProcess ∧ (update m.processes _ _ ch.slot).pid = _ ∧
      (update m.processes _ _ ch.slot).channel.1 = _ ∧ _
    rw [Function.update_of_ne (hother ch hch)]
    exact h.kept ch hch
  · rw [heq, hreaches, newChild_of_fork hreaches hchannel hforked]
    simp only [if_true, Option.isSome_some, Option.some.injEq]
    have hle := (chooseSlot_of_neg htype m).1
    have hlast : (m.entered type (m.chooseSlot type) pid channel).lastProcess
        = if type < 0 ∧ m.chooseSlot type = m.lastProcess then m.lastProcess + 1
          else m.lastProcess := rfl
    refine ⟨?_, fun _ => ⟨_, .inr rfl, rfl⟩, fun hlive => (nomatch hlive)⟩
    rintro ch (hch | rfl)
    · obtain ⟨hlt, hrest⟩ := h.kept ch hch
      refine ⟨?_, ?_⟩
      · rw [hlast]
        split <;> omega
      · show (update m.processes _ _ ch.slot).pid = _ ∧
          (update m.processes _ _ ch.slot).channel.1 = _ ∧ _
        rw [Function.update_of_ne (hother ch hch)]
        exact hrest
    · refine ⟨?_, ?_, ?_, natCast_ne_neg_one pid, rfl⟩
      · show m.chooseSlot type < _
        rw [hlast]
        split <;> omega
      · show (update m.processes _ _ (m.chooseSlot type)).pid = pid
        rw [Function.update_self, spawned_pid]
      · show (update m.processes _ _ (m.chooseSlot type)).channel.1 = channel.1
        rw [Function.update_self, spawned_channel]

/-- The slot that is announced holds a child of the call exactly if the latest `fork` was one. -/
theorem Recorded.shown_iff (h : Recorded children live m) : children m.shown ↔ live = true := by
  refine ⟨?_, ?_⟩
  · intro hshown
    by_contra hlive
    exact h.stale (Bool.eq_false_iff.mpr hlive) _ hshown rfl
  · intro hlive
    obtain ⟨ch, hch, hslot⟩ := h.announced hlive
    obtain ⟨-, hpid, hfd, -, hcommand⟩ := h.kept ch hch
    have heq : m.shown = ch := by
      rw [Master.shown, ← hslot, hpid, hfd, ← hcommand]
    rw [heq]
    exact hch

/-- Only detached children have no channel. -/
theorem newChild_fd {ch : Channel} (h : m.newChild type o = some ch) :
    ch.fd ≠ -1 ↔ type ≠ processDetached := by
  rcases spawnProcess_exits type o m with ⟨-, hnot, -⟩ | ⟨-, -, hforked, -⟩ |
    ⟨pid, channel, hreaches, hchannel, hforked, -⟩
  · rw [newChild_of_exit (.inl hnot)] at h
    cases h
  · rw [newChild_of_exit (.inr hforked)] at h
    cases h
  · rw [newChild_of_fork hreaches hchannel hforked] at h
    cases h
    rw [SpawnOutcome.channel] at hchannel
    by_cases htype : type = processDetached
    · rw [if_neg (not_not.mpr htype)] at hchannel
      cases hchannel
      exact ⟨fun hne => absurd rfl hne, fun hne => absurd htype hne⟩
    · rw [if_pos htype] at hchannel
      refine ⟨fun _ => htype, fun _ => ?_⟩
      rcases hpair : o.socketpair with _ | ⟨fd₀, fd₁⟩
      · rw [hpair] at hchannel
        cases hchannel
      · rw [hpair] at hchannel
        dsimp only at hchannel
        split at hchannel
        · cases hchannel
          exact natCast_ne_neg_one fd₀
        · cases hchannel

/-- Those who are told of a spawn had their channels before it. -/
theorem spawnProcess_peers (htype : type < 0) (m : Master) (o : SpawnOutcome) (k : Nat) :
    let m' := (m.spawnProcess type o).2
    (k < m'.lastProcess ∧ k ≠ m'.processSlot ∧ (m'.processes k).pid ≠ -1 ∧
        (m'.processes k).channel.1 ≠ -1) ↔
      k < m.lastProcess ∧
        k ≠ (if m.reachesFork type o then m.chooseSlot type else m.processSlot) ∧
        (m.processes k).pid ≠ -1 ∧ (m.processes k).channel.1 ≠ -1 := by
  have hfree := chooseSlot_free htype m
  dsimp only
  rcases spawnProcess_exits type o m with ⟨channel, hnot, heq⟩ | ⟨channel, hreaches, -, heq⟩ |
    ⟨pid, channel, hreaches, -, -, heq⟩
  · rw [heq, hnot]
    show (k < m.lastProcess ∧ k ≠ m.processSlot ∧ (update m.processes _ _ k).pid ≠ -1 ∧
      (update m.processes _ _ k).channel.1 ≠ -1) ↔ _
    by_cases hk : k = m.chooseSlot type
    · rw [← hk] at hfree ⊢
      rw [Function.update_self]
      refine ⟨?_, ?_⟩
      · rintro ⟨hlt, -, hpid, -⟩
        exact absurd (hfree hlt) hpid
      · rintro ⟨hlt, -, hpid, -⟩
        exact absurd (hfree hlt) hpid
    · rw [Function.update_of_ne hk]
      exact Iff.rfl
  · rw [heq, hreaches]
    show (k < m.lastProcess ∧ k ≠ m.chooseSlot type ∧ (update m.processes _ _ k).pid ≠ -1 ∧
      (update m.processes _ _ k).channel.1 ≠ -1) ↔ _
    by_cases hk : k = m.chooseSlot type
    · simp [hk]
    · rw [Function.update_of_ne hk]
      exact Iff.rfl
  · rw [heq, hreaches]
    show (k < (if type < 0 ∧ m.chooseSlot type = m.lastProcess then m.lastProcess + 1
      else m.lastProcess) ∧ k ≠ m.chooseSlot type ∧ (update m.processes _ _ k).pid ≠ -1 ∧
      (update m.processes _ _ k).channel.1 ≠ -1) ↔ _
    by_cases hk : k = m.chooseSlot type
    · simp [hk]
    · rw [Function.update_of_ne hk]
      have hlt : k < (if type < 0 ∧ m.chooseSlot type = m.lastProcess then m.lastProcess + 1
          else m.lastProcess) ↔ k < m.lastProcess := by
        split <;> omega
      rw [hlt]
      exact Iff.rfl

theorem startWorker_eq (m : Master) (outcomes : Nat → SpawnOutcome) (i : Nat) :
    m.startWorker type outcomes i
      = (m.spawnProcess type (outcomes i)).2.passOpenChannel
        (m.spawnProcess type (outcomes i)).2.shown := rfl

theorem messages_append (log log' : List Note) :
    messages (log ++ log') = messages log ++ messages log' := List.filterMap_append ..

/-- The writes of a turn: what slot `ngx_process_slot` holds, to all peers. -/
theorem mem_messages_startWorker {msg : Message} (m : Master) (outcomes : Nat → SpawnOutcome)
    (i : Nat) :
    msg ∈ (messages (m.startWorker type outcomes i).log).drop (messages m.log).length ↔
      ∃ k, (let m' := (m.spawnProcess type (outcomes i)).2
        (k < m'.lastProcess ∧ k ≠ m'.processSlot ∧ (m'.processes k).pid ≠ -1 ∧
          (m'.processes k).channel.1 ≠ -1) ∧
        msg = { slot := k, fd := (m'.processes k).channel.1, ch := m'.shown }) := by
  have hlog : messages (m.spawnProcess type (outcomes i)).2.log = messages m.log := by
    rcases spawnProcess_exits type (outcomes i) m with ⟨channel, -, heq⟩ | ⟨channel, -, -, heq⟩ |
      ⟨pid, channel, -, -, -, heq⟩
    · rw [heq]
      rfl
    · rw [heq]
      rfl
    · rw [heq]
      show messages (m.log ++ [.fork _ _]) = _
      rw [messages_append]
      exact List.append_nil _
  rw [startWorker_eq, Master.passOpenChannel, Master.writeChannels]
  dsimp only
  rw [messages_append, hlog, List.drop_left, Master.writesOf, messages, List.filterMap_map]
  simp only [List.mem_filterMap, List.mem_filter, List.mem_range, Function.comp_apply,
    Option.some.injEq, Bool.and_eq_true, decide_eq_true_eq, and_assoc, eq_comm (b := msg)]

end Spawn

-- ============================================================================
-- The whole call
-- ============================================================================

section Call

variable (m : Master) {type : Int} (outcomes : Nat → SpawnOutcome)

theorem startWorkerProcesses_succ (i : Nat) :
    m.startWorkerProcesses (i + 1) type outcomes
      = (m.startWorkerProcesses i type outcomes).startWorker type outcomes i := by
  rw [Master.startWorkerProcesses, List.range_succ, List.foldl_append]
  rfl

/-- The children of the first turns stay recorded. -/
theorem recorded_startWorkerProcesses (htype : type < 0) (i : Nat) :
    Recorded (fun ch => ∃ j < i, m.childOf type outcomes j = some ch)
      (m.latestForked type outcomes i) (m.startWorkerProcesses i type outcomes) := by
  induction i with
  | zero =>
      refine ⟨?_, fun hlive => (nomatch hlive), ?_⟩
      · rintro ch ⟨j, hj, -⟩
        exact absurd hj (Nat.not_lt_zero j)
      · rintro - ch ⟨j, hj, -⟩
        exact absurd hj (Nat.not_lt_zero j)
  | succ i ih =>
      have hspawn := ih.spawnProcess htype (outcomes i)
      have hchildren : ∀ ch, (∃ j < i + 1, m.childOf type outcomes j = some ch) ↔
          (∃ j < i, m.childOf type outcomes j = some ch) ∨ m.childOf type outcomes i = some ch := by
        intro ch
        simp only [Nat.lt_succ_iff_lt_or_eq, or_and_right, exists_or, exists_eq_left]
      rw [startWorkerProcesses_succ, startWorker_eq]
      refine ⟨?_, ?_, ?_⟩
      · intro ch hch
        exact hspawn.kept ch ((hchildren ch).mp hch)
      · intro hlive
        obtain ⟨ch, hch, hslot⟩ := hspawn.announced hlive
        exact ⟨ch, (hchildren ch).mpr hch, hslot⟩
      · intro hlive ch hch
        exact hspawn.stale hlive ch ((hchildren ch).mp hch)

/-- The messages of one turn. -/
theorem told_forked_iff (htype : type < 0) (i : Nat) :
    (∀ msg ∈ m.told type outcomes i,
      msg.ch.fd ≠ -1 ∧ ∃ j ≤ i, m.childOf type outcomes j = some msg.ch) ↔
    ((m.startWorkerProcesses i type outcomes).hasPeer type (outcomes i) →
      m.latestForked type outcomes (i + 1) = true ∧ type ≠ processDetached) := by
  have hrecorded := recorded_startWorkerProcesses m outcomes htype (i + 1)
  have hlive := hrecorded.shown_iff
  -- the channel of a child is open unless it is detached
  have hfd : ∀ ch, (∃ j < i + 1, m.childOf type outcomes j = some ch) →
      (ch.fd ≠ -1 ↔ type ≠ processDetached) := by
    rintro ch ⟨j, -, hj⟩
    exact newChild_fd hj
  have hshown : (m.startWorkerProcesses (i + 1) type outcomes).shown
      = ((m.startWorkerProcesses i type outcomes).spawnProcess type (outcomes i)).2.shown := by
    rw [startWorkerProcesses_succ]
    rfl
  rw [hshown] at hlive
  simp only [← Nat.lt_succ_iff]
  refine ⟨?_, ?_⟩
  · rintro hall ⟨k, hk⟩
    have hpeer := (spawnProcess_peers htype _ (outcomes i) k).mpr hk
    have hmem := (mem_messages_startWorker _ outcomes i).mpr ⟨k, hpeer, rfl⟩
    rw [← startWorkerProcesses_succ] at hmem
    obtain ⟨hopen, hchild⟩ := hall _ hmem
    exact ⟨hlive.mp hchild, (hfd _ hchild).mp hopen⟩
  · intro hpeers msg hmsg
    rw [Master.told, startWorkerProcesses_succ] at hmsg
    obtain ⟨k, hpeer, rfl⟩ := (mem_messages_startWorker _ outcomes i).mp hmsg
    have hk := (spawnProcess_peers htype _ (outcomes i) k).mp hpeer
    obtain ⟨hlatest, hattached⟩ := hpeers ⟨k, hk⟩
    have hchild := hlive.mpr hlatest
    exact ⟨(hfd _ hchild).mpr hattached, hchild⟩

/-- A call of `ngx_start_worker_processes` announces its own children only exactly if, at every
    turn that has someone to tell, the latest spawn that got as far as `fork` has its child and
    the children are not detached. -/
theorem announcesForked_iff (htype : type < 0) (n : Nat) :
    m.AnnouncesForked type outcomes n ↔ ∀ i < n,
      (m.startWorkerProcesses i type outcomes).hasPeer type (outcomes i) →
        m.latestForked type outcomes (i + 1) = true ∧ type ≠ processDetached :=
  forall₂_congr fun i _ => told_forked_iff m outcomes htype i

end Call

/-- The master with one worker. -/
def oneWorker : Master :=
  Master.start.startWorkerProcesses 1 processRespawn fun _ => .success (5, 6) 100

theorem announcesForked_secondWorker :
    oneWorker.AnnouncesForked processJustRespawn (fun _ => .success (7, 8) 101) 1 := by
  refine (announcesForked_iff oneWorker _ (by decide) 1).mpr ?_
  intro i hi _
  obtain rfl : i = 0 := by omega
  decide

/-- A second worker is started, and `fork` fails.  The first one is told of slot 1 with a
    descriptor that has been closed. -/
theorem not_announcesForked_failingFork :
    ¬ oneWorker.AnnouncesForked processJustRespawn
      (fun _ => { SpawnOutcome.success (7, 8) 101 with fork := none }) 1 := by
  intro hall
  have htold : oneWorker.told processJustRespawn
      (fun _ => { SpawnOutcome.success (7, 8) 101 with fork := none }) 0
      = [{ slot := 0, fd := 5, ch := { command := .openChannel, pid := 0, slot := 1, fd := 7 } }] := by
    decide
  obtain ⟨-, j, hj, hchild⟩ := hall 0 Nat.one_pos _ (by rw [htold]; exact List.mem_singleton_self _)
  obtain rfl : j = 0 := by omega
  cases hchild

end LinuxCodeDemos.Ngx

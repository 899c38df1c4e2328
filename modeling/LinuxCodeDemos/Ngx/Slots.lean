/-
  LinuxCodeDemos.Ngx.Slots

  Slots of the process table and the children behind them.

  - `Slots` is what matters of the table for the question which slot belongs to
    which child: process ids, `exited`, `detached`, `ngx_last_process` and the
    kernel's side.
  - `Owner`: every child that has not been waited for has a slot that is not marked
    as exited.  `SlotInv` adds that no two slots hold the same process id.
  - `spawnProcess_cases` and the `slots_` theorems say once what the code can do to
    the slots.
-/

import LinuxCodeDemos.Ngx.Master

namespace LinuxCodeDemos.Ngx

open Function (update)

-- ============================================================================
-- Slots and children
-- ============================================================================

structure Entry where
  pid : Int
  exited : Bool
  detached : Bool
  deriving DecidableEq, Repr

structure Slots where
  entry : Nat → Entry
  last : Nat
  kids : Nat → Kid

namespace Slots

variable {t : Slots} {s i pid : Nat}

/-- A child is forked for slot `s`. -/
def enter (s pid : Nat) (detached : Bool) (last : Nat) (t : Slots) : Slots :=
  { entry := update t.entry s { pid, exited := false, detached }
    last
    kids := update t.kids pid .running }

/-- Slot `i` is marked as exited. -/
def mark (i : Nat) (t : Slots) : Slots :=
  { t with entry := update t.entry i { t.entry i with exited := true } }

/-- Slot `i` is given up. -/
def free (i : Nat) (t : Slots) : Slots :=
  if i + 1 = t.last then { t with last := i }
  else { t with entry := update t.entry i { t.entry i with pid := -1 } }

def setKid (pid : Nat) (kid : Kid) (t : Slots) : Slots :=
  { t with kids := update t.kids pid kid }

/-- The slot is free, or its child has exited. -/
def Vacant (s : Nat) (t : Slots) : Prop :=
  s < t.last → (t.entry s).pid = -1 ∨ (t.entry s).exited = true

/-- Every child that has not been waited for has a slot that is not marked. -/
def Owner (t : Slots) : Prop :=
  ∀ p, t.kids p ≠ .absent → ∃ s < t.last, (t.entry s).pid = p ∧ (t.entry s).exited = false

/-- Slots and children are in step. -/
structure SlotInv (t : Slots) : Prop where
  last_le : t.last ≤ maxProcesses
  owner : t.Owner
  distinct : ∀ s < t.last, ∀ u < t.last, (t.entry s).pid = (t.entry u).pid →
    (t.entry s).pid ≠ -1 → s = u
  dead : ∀ s < t.last, (t.entry s).exited = true → ∀ p : Nat, (t.entry s).pid = p →
    t.kids p = .absent

theorem Owner.enter (h : t.Owner) (hvacant : t.Vacant s) {last : Nat} (hs : s < last)
    (hle : t.last ≤ last) (detached : Bool) : (t.enter s pid detached last).Owner := by
  intro p hp
  by_cases heq : p = pid
  · refine ⟨s, hs, ?_, ?_⟩
    · show (update t.entry s _ s).pid = (p : Int)
      rw [Function.update_self, heq]
    · show (update t.entry s _ s).exited = false
      rw [Function.update_self]
  · have hold : t.kids p ≠ .absent := by
      change update t.kids pid .running p ≠ .absent at hp
      rwa [Function.update_of_ne heq] at hp
    obtain ⟨u, hu, hpid, hexited⟩ := h p hold
    have hne : u ≠ s := by
      intro hus
      rw [hus] at hu hpid hexited
      rcases hvacant hu with hfree | hdead
      · rw [hfree] at hpid
        omega
      · rw [hdead] at hexited
        cases hexited
    refine ⟨u, Nat.lt_of_lt_of_le hu hle, ?_⟩
    show (update t.entry s _ u).pid = (p : Int) ∧ (update t.entry s _ u).exited = false
    rw [Function.update_of_ne hne]
    exact ⟨hpid, hexited⟩

/-- Marking a slot whose child is gone. -/
theorem Owner.mark (h : t.Owner) (hgone : ∀ p : Nat, (t.entry i).pid = p → t.kids p = .absent) :
    (t.mark i).Owner := by
  intro p hp
  obtain ⟨u, hu, hpid, hexited⟩ := h p hp
  have hne : u ≠ i := by
    intro hui
    rw [hui] at hpid
    exact hp (hgone p hpid)
  refine ⟨u, hu, ?_⟩
  show (update t.entry i _ u).pid = (p : Int) ∧ (update t.entry i _ u).exited = false
  rw [Function.update_of_ne hne]
  exact ⟨hpid, hexited⟩

/-- Giving up a slot whose child has exited. -/
theorem Owner.free (h : t.Owner) (hexited : (t.entry i).exited = true) : (t.free i).Owner := by
  have hkids : (t.free i).kids = t.kids := by
    rw [Slots.free]
    split <;> rfl
  intro p hp
  rw [hkids] at hp
  obtain ⟨u, hu, hpid, hlive⟩ := h p hp
  have hne : u ≠ i := by
    intro hui
    rw [hui, hexited] at hlive
    cases hlive
  rw [Slots.free]
  split
  · next hlast => exact ⟨u, by show u < i; omega, hpid, hlive⟩
  · refine ⟨u, hu, ?_⟩
    show (update t.entry i _ u).pid = (p : Int) ∧ (update t.entry i _ u).exited = false
    rw [Function.update_of_ne hne]
    exact ⟨hpid, hlive⟩

/-- A child that is not waited for yet changes its state. -/
theorem Owner.setKid (h : t.Owner) {kid : Kid} (hkid : kid = .absent ∨ t.kids pid ≠ .absent) :
    (t.setKid pid kid).Owner := by
  intro p hp
  apply h p
  change update t.kids pid kid p ≠ .absent at hp
  by_cases heq : p = pid
  · rw [heq, Function.update_self] at hp
    rw [heq]
    exact hkid.resolve_left hp
  · rwa [Function.update_of_ne heq] at hp

theorem SlotInv.enter (h : t.SlotInv) (hvacant : t.Vacant s) {last : Nat} (hs : s < last)
    (hle : t.last ≤ last) (hmax : last ≤ maxProcesses) (hcover : ∀ u < last, u ≠ s → u < t.last)
    (hfresh : ∀ u < t.last, u ≠ s → (t.entry u).pid ≠ pid) (detached : Bool) :
    (t.enter s pid detached last).SlotInv := by
  constructor
  case last_le => exact hmax
  case owner => exact h.owner.enter hvacant hs hle detached
  case distinct =>
    intro u hu v hv heq hne
    change (update t.entry s _ u).pid = (update t.entry s _ v).pid at heq
    change (update t.entry s _ u).pid ≠ -1 at hne
    by_cases hus : u = s
    · by_cases hvs : v = s
      · rw [hus, hvs]
      · rw [hus, Function.update_self, Function.update_of_ne hvs] at heq
        exact absurd heq.symm (hfresh v (hcover v hv hvs) hvs)
    · rw [Function.update_of_ne hus] at heq hne
      by_cases hvs : v = s
      · rw [hvs, Function.update_self] at heq
        exact absurd heq (hfresh u (hcover u hu hus) hus)
      · rw [Function.update_of_ne hvs] at heq
        exact h.distinct u (hcover u hu hus) v (hcover v hv hvs) heq hne
  case dead =>
    intro u hu hexited p hp
    change (update t.entry s _ u).exited = true at hexited
    change (update t.entry s _ u).pid = (p : Int) at hp
    show update t.kids pid .running p = .absent
    by_cases hus : u = s
    · rw [hus, Function.update_self] at hexited
      cases hexited
    · rw [Function.update_of_ne hus] at hexited hp
      have hne : p ≠ pid := by
        intro heq
        rw [heq] at hp
        exact hfresh u (hcover u hu hus) hus hp
      rw [Function.update_of_ne hne]
      exact h.dead u (hcover u hu hus) hexited p hp

theorem SlotInv.mark (h : t.SlotInv) (hgone : ∀ p : Nat, (t.entry i).pid = p → t.kids p = .absent) :
    (t.mark i).SlotInv := by
  have hpid : ∀ u, ((t.mark i).entry u).pid = (t.entry u).pid := by
    intro u
    show (update t.entry i _ u).pid = _
    by_cases hui : u = i
    · rw [hui, Function.update_self]
    · rw [Function.update_of_ne hui]
  constructor
  case last_le => exact h.last_le
  case owner => exact h.owner.mark hgone
  case distinct =>
    intro u hu v hv
    rw [hpid, hpid]
    exact h.distinct u hu v hv
  case dead =>
    intro u hu hexited p hp
    rw [hpid] at hp
    by_cases hui : u = i
    · rw [hui] at hp
      exact hgone p hp
    · change (update t.entry i _ u).exited = true at hexited
      rw [Function.update_of_ne hui] at hexited
      exact h.dead u hu hexited p hp

theorem SlotInv.free (h : t.SlotInv) (hexited : (t.entry i).exited = true) : (t.free i).SlotInv := by
  have howner := h.owner.free hexited
  rw [Slots.free] at howner ⊢
  split at howner
  · next hlast =>
    rw [if_pos hlast]
    have hlt : ∀ u, u < i → u < t.last := fun u hu => by omega
    have hle := h.last_le
    refine ⟨by show i ≤ maxProcesses; omega, howner, ?_, ?_⟩
    · intro u hu v hv
      exact h.distinct u (hlt u hu) v (hlt v hv)
    · intro u hu
      exact h.dead u (hlt u hu)
  · next hlast =>
    rw [if_neg hlast]
    refine ⟨h.last_le, howner, ?_, ?_⟩
    · intro u hu v hv heq hne
      change (update t.entry i _ u).pid = (update t.entry i _ v).pid at heq
      change (update t.entry i _ u).pid ≠ -1 at hne
      by_cases hui : u = i
      · rw [hui, Function.update_self] at hne
        exact absurd rfl hne
      · rw [Function.update_of_ne hui] at heq hne
        by_cases hvi : v = i
        · rw [hvi, Function.update_self] at heq
          exact absurd heq hne
        · rw [Function.update_of_ne hvi] at heq
          exact h.distinct u hu v hv heq hne
    · intro u hu hdead p hp
      change (update t.entry i _ u).exited = true at hdead
      change (update t.entry i _ u).pid = (p : Int) at hp
      by_cases hui : u = i
      · rw [hui, Function.update_self] at hp
        change (-1 : Int) = (p : Int) at hp
        omega
      · rw [Function.update_of_ne hui] at hdead hp
        exact h.dead u hu hdead p hp

theorem SlotInv.setKid (h : t.SlotInv) {kid : Kid} (hkid : kid = .absent ∨ t.kids pid ≠ .absent) :
    (t.setKid pid kid).SlotInv := by
  refine ⟨h.last_le, h.owner.setKid hkid, h.distinct, ?_⟩
  intro s hs hexited p hp
  have habsent := h.dead s hs hexited p hp
  show update t.kids pid kid p = .absent
  by_cases heq : p = pid
  · rw [heq, Function.update_self]
    rw [heq] at habsent
    exact hkid.resolve_right (fun hne => hne habsent)
  · rwa [Function.update_of_ne heq]

end Slots

-- ============================================================================
-- What a spawn can do
-- ============================================================================

/-- The slot of a process that has been forked. -/
def Process.spawned (respawn : Int) (channel : Int × Int) (pid : Nat) (p : Process) : Process :=
  if 0 ≤ respawn then { p with channel, pid, exited := false }
  else Master.kindOf respawn { p with channel, pid, exited := false, exiting := false }

/-- A spawn that fails: the channel of the slot may have changed. -/
def Master.failed (s slot : Nat) (channel : Int × Int) (m : Master) : Master :=
  { m with
    processes := update m.processes s { m.processes s with channel }
    processSlot := slot }

/-- A spawn that succeeds. -/
def Master.entered (respawn : Int) (s pid : Nat) (channel : Int × Int) (m : Master) : Master :=
  { m with
    processes := update m.processes s ((m.processes s).spawned respawn channel pid)
    lastProcess :=
      if respawn < 0 ∧ s = m.lastProcess then m.lastProcess + 1 else m.lastProcess
    processSlot := s
    kids := update m.kids pid .running
    log := m.log ++ [.fork s (update m.processes s { m.processes s with channel })] }

/-- The channel that `openChannel` leaves behind, if it succeeds. -/
def SpawnOutcome.channel (respawn : Int) (o : SpawnOutcome) : Option (Int × Int) :=
  if respawn ≠ processDetached then
    match o.socketpair with
    | none => none
    | some (fd₀, fd₁) =>
        if o.nonblock.1 && o.nonblock.2 && o.fioasync && o.setown && o.cloexec.1 && o.cloexec.2 then
          some (fd₀, fd₁)
        else none
  else some (-1, -1)

/-- The id that `fork` returns in a spawn, if the spawn gets that far and `fork`
    succeeds. -/
def Master.forked (m : Master) (respawn : Int) (o : SpawnOutcome) : Option Nat :=
  match o.channel respawn, o.fork with
  | some _, some pid => if 0 < pid ∧ m.kids pid = .absent then some pid else none
  | _, _ => none

/-- A spawn gets as far as `fork`: there is a slot, and its channel is set up. -/
def Master.reachesFork (m : Master) (respawn : Int) (o : SpawnOutcome) : Bool :=
  ¬ (respawn < 0 ∧ m.chooseSlot respawn = maxProcesses) ∧ (o.channel respawn).isSome = true

theorem openChannel_cases (respawn : Int) (s : Nat) (o : SpawnOutcome) (m : Master) :
    (∃ channel, m.openChannel respawn s o = (false, m.failed s m.processSlot channel) ∧
      o.channel respawn = none) ∨
    ∃ channel, m.openChannel respawn s o = (true, m.failed s m.processSlot channel) ∧
      o.channel respawn = some channel := by
  have hsame : m.failed s m.processSlot (m.processes s).channel = m := by
    rw [Master.failed, Function.update_eq_self]
  rw [Master.openChannel, SpawnOutcome.channel]
  split
  · cases o.socketpair with
    | none => exact .inl ⟨(m.processes s).channel, by rw [hsame], rfl⟩
    | some fds =>
        dsimp only
        split
        · next h => exact .inr ⟨_, by rw [h]; rfl, rfl⟩
        · next h => exact .inl ⟨_, by rw [Bool.eq_false_iff.mpr h]; rfl, rfl⟩
  · exact .inr ⟨_, rfl, rfl⟩

theorem enterProcess_eq (respawn : Int) (s pid : Nat) (m : Master) :
    m.enterProcess respawn s pid = { m with
      processes := update m.processes s
        ((m.processes s).spawned respawn (m.processes s).channel pid)
      lastProcess :=
        if respawn < 0 ∧ s = m.lastProcess then m.lastProcess + 1 else m.lastProcess } := by
  rw [Master.enterProcess, Process.spawned]
  by_cases hrespawn : 0 ≤ respawn
  · have hneg : ¬ (respawn < 0 ∧ s = m.lastProcess) := by omega
    rw [if_pos hrespawn, if_pos hrespawn, if_neg hneg]
    rfl
  · have hneg : respawn < 0 := by omega
    simp only [hrespawn, if_false, Master.setProcess, Function.update_self, Function.update_idem,
      hneg, true_and]
    split <;> rfl

/-- The ways out of `ngx_spawn_process`: before `fork`, at `fork` and after it. -/
theorem spawnProcess_exits (respawn : Int) (o : SpawnOutcome) (m : Master) :
    (∃ channel, m.reachesFork respawn o = false ∧ m.spawnProcess respawn o
      = (invalidPid, m.failed (m.chooseSlot respawn) m.processSlot channel)) ∨
    (∃ channel, m.reachesFork respawn o = true ∧ m.forked respawn o = none ∧
      m.spawnProcess respawn o
        = (invalidPid, m.failed (m.chooseSlot respawn) (m.chooseSlot respawn) channel)) ∨
    ∃ pid channel, m.reachesFork respawn o = true ∧ o.channel respawn = some channel ∧
      m.forked respawn o = some pid ∧ m.spawnProcess respawn o
        = ((pid : Int), m.entered respawn (m.chooseSlot respawn) pid channel) := by
  have hsame : m.failed (m.chooseSlot respawn) m.processSlot
      (m.processes (m.chooseSlot respawn)).channel = m := by
    rw [Master.failed, Function.update_eq_self]
  rw [Master.spawnProcess, Master.reachesFork]
  generalize hs : m.chooseSlot respawn = s at hsame
  dsimp only
  split
  · next hmax => exact .inl ⟨_, decide_eq_false fun h => h.1 hmax, by rw [hsame]⟩
  · next hmax =>
    rcases openChannel_cases respawn s o m with ⟨channel, hopen, hchannel⟩ | ⟨channel, hopen, hchannel⟩
    · rw [hopen, hchannel]
      refine .inl ⟨channel, decide_eq_false ?_, rfl⟩
      rintro ⟨-, hsome⟩
      cases hsome
    · have hreaches : decide (¬ (respawn < 0 ∧ s = maxProcesses) ∧
          (o.channel respawn).isSome = true) = true := by
        rw [hchannel]
        exact decide_eq_true ⟨hmax, rfl⟩
      rw [hopen]
      dsimp only
      cases hfork : o.fork with
      | none =>
          refine .inr (.inl ⟨channel, hreaches, ?_, rfl⟩)
          rw [Master.forked, hchannel, hfork]
      | some pid =>
          by_cases hfresh : 0 < pid ∧ m.kids pid = .absent
          · have hforked : m.forked respawn o = some pid := by
              rw [Master.forked, hchannel, hfork]
              exact if_pos hfresh
            refine .inr (.inr ⟨pid, channel, hreaches, hchannel, hforked, ?_⟩)
            rw [Master.fork]
            dsimp only
            rw [if_pos (by exact hfresh)]
            dsimp only
            rw [enterProcess_eq]
            simp only [Master.failed, Master.entered, Function.update_self, Function.update_idem]
            rfl
          · rw [Master.fork]
            dsimp only
            rw [if_neg (by exact hfresh)]
            refine .inr (.inl ⟨channel, hreaches, ?_, rfl⟩)
            rw [Master.forked, hchannel, hfork]
            exact if_neg hfresh

/-- What `ngx_spawn_process` can do. -/
theorem spawnProcess_cases (respawn : Int) (o : SpawnOutcome) (m : Master) :
    (∃ slot channel,
      (respawn < 0 ∧ m.chooseSlot respawn = maxProcesses ∨ m.forked respawn o = none) ∧
      m.spawnProcess respawn o
        = (invalidPid, m.failed (m.chooseSlot respawn) slot channel)) ∨
    ∃ pid channel, o.channel respawn = some channel ∧ m.forked respawn o = some pid ∧
      ¬ (respawn < 0 ∧ m.chooseSlot respawn = maxProcesses) ∧
      m.spawnProcess respawn o
        = ((pid : Int), m.entered respawn (m.chooseSlot respawn) pid channel) := by
  rcases spawnProcess_exits respawn o m with ⟨channel, hnot, heq⟩ | ⟨channel, -, hforked, heq⟩ |
    ⟨pid, channel, hreaches, hchannel, hforked, heq⟩
  · refine .inl ⟨m.processSlot, channel, ?_, heq⟩
    by_cases hmax : respawn < 0 ∧ m.chooseSlot respawn = maxProcesses
    · exact .inl hmax
    · have hnone : o.channel respawn = none := by
        cases hchannel : o.channel respawn with
        | none => rfl
        | some c => exact absurd ⟨hmax, by rw [hchannel]; rfl⟩ (of_decide_eq_false hnot)
      exact .inr (by rw [Master.forked, hnone])
  · exact .inl ⟨_, channel, .inr hforked, heq⟩
  · exact .inr ⟨pid, channel, hchannel, hforked, (of_decide_eq_true hreaches).1, heq⟩

-- ============================================================================
-- The code and the slots
-- ============================================================================

def Process.entry (p : Process) : Entry :=
  { pid := p.pid, exited := p.exited, detached := p.detached }

/-- The slots of the master. -/
def Master.slots (m : Master) : Slots :=
  { entry := fun s => (m.processes s).entry, last := m.lastProcess, kids := m.kids }

section Refinement

variable {m : Master} {s i pid : Nat}

theorem entry_update (processes : Nat → Process) (s : Nat) (p : Process) :
    (fun u => (update processes s p u).entry) = update (fun u => (processes u).entry) s p.entry := by
  funext u
  by_cases heq : u = s
  · rw [heq, Function.update_self, Function.update_self]
  · rw [Function.update_of_ne heq, Function.update_of_ne heq]

/-- Changes of other fields do not concern the slots. -/
theorem slots_setProcess {f : Process → Process} (h : (f (m.processes s)).entry = (m.processes s).entry) :
    (m.setProcess s f).slots = m.slots := by
  simp only [Master.slots, Master.setProcess, entry_update, h]
  rw [Function.update_eq_self s fun u => (m.processes u).entry]

theorem slots_failed (slot : Nat) (channel : Int × Int) : (m.failed s slot channel).slots = m.slots := by
  simp only [Master.slots, Master.failed, entry_update]
  rw [show ({ m.processes s with channel } : Process).entry = (m.processes s).entry from rfl,
    Function.update_eq_self s fun u => (m.processes u).entry]

theorem kindOf_pid (respawn : Int) (p : Process) : (Master.kindOf respawn p).pid = p.pid := by
  simp only [Master.kindOf]
  repeat' split
  all_goals rfl

theorem kindOf_exited (respawn : Int) (p : Process) :
    (Master.kindOf respawn p).exited = p.exited := by
  simp only [Master.kindOf]
  repeat' split
  all_goals rfl

theorem entry_spawned (respawn : Int) (channel : Int × Int) (pid : Nat) (p : Process) :
    (p.spawned respawn channel pid).entry =
      { pid, exited := false, detached := (p.spawned respawn channel pid).detached } := by
  rw [Process.entry, Process.spawned]
  split
  · rfl
  · rw [kindOf_pid, kindOf_exited]

theorem slots_entered (m : Master) (respawn : Int) (s pid : Nat) (channel : Int × Int) :
    (m.entered respawn s pid channel).slots
      = m.slots.enter s pid ((m.processes s).spawned respawn channel pid).detached
        (if respawn < 0 ∧ s = m.lastProcess then m.lastProcess + 1 else m.lastProcess) := by
  simp only [Master.slots, Master.entered, entry_update, Slots.enter]
  rw [entry_spawned]

theorem entered_lastProcess (m : Master) (i pid : Nat) (channel : Int × Int) :
    (m.entered i i pid channel).lastProcess = m.lastProcess := by
  have hno : ¬ ((i : Int) < 0 ∧ i = m.lastProcess) := by omega
  rw [Master.entered]
  dsimp only
  rw [if_neg hno]

/-- A spawn with a negative code takes the first free slot or the next one. -/
theorem chooseSlot_of_neg {respawn : Int} (h : respawn < 0) (m : Master) :
    m.chooseSlot respawn ≤ m.lastProcess ∧ m.slots.Vacant (m.chooseSlot respawn) := by
  rw [Master.chooseSlot, if_neg (by omega)]
  cases hfind : (List.range m.lastProcess).find? fun s => (m.processes s).pid = invalidPid with
  | none => exact ⟨Nat.le_refl _, fun hlt => absurd hlt (Nat.lt_irrefl _)⟩
  | some s =>
      have hmem := List.mem_range.mp (List.mem_of_find?_eq_some hfind)
      have hfree := List.find?_some hfind
      exact ⟨Nat.le_of_lt hmem, fun _ => .inl (of_decide_eq_true hfree)⟩

theorem chooseSlot_of_slot (i : Nat) (m : Master) : m.chooseSlot i = i := by
  rw [Master.chooseSlot, if_pos (Int.natCast_nonneg i), Int.toNat_natCast]

theorem slots_setProcess_exited (status : Nat) :
    (m.setProcess i fun p => { p with status, exited := true }).slots = m.slots.mark i := by
  simp only [Master.slots, Master.setProcess, entry_update, Slots.mark]
  rfl

/-- `waitpid` returned a child: the first slot with its id is marked. -/
theorem slots_markExited (pid status : Nat) (m : Master) :
    (m.markExited pid status).slots = m.slots ∧ (∀ i < m.lastProcess, (m.processes i).pid ≠ pid) ∨
    ∃ i < m.lastProcess, (m.processes i).pid = pid ∧
      (m.markExited pid status).slots = m.slots.mark i := by
  have hrespawn : ∀ (m : Master) (i : Nat),
      (if Master.wexitstatus status = 2 ∧ (m.processes i).respawn then
        m.setProcess i fun p => { p with respawn := false } else m).slots = m.slots := by
    intro m i
    split
    · exact slots_setProcess rfl
    · rfl
  rw [Master.markExited, hrespawn]
  cases hfind : (List.range m.lastProcess).find? fun i => (m.processes i).pid = pid with
  | none =>
      refine .inl ⟨?_, ?_⟩
      · rw [Option.getD_none, if_neg (Nat.lt_irrefl _)]
      · intro i hi
        have hne := List.find?_eq_none.mp hfind i (List.mem_range.mpr hi)
        simpa using hne
  | some i =>
      have hlt := List.mem_range.mp (List.mem_of_find?_eq_some hfind)
      have hpid := List.find?_some hfind
      refine .inr ⟨i, hlt, of_decide_eq_true hpid, ?_⟩
      rw [Option.getD_some, if_pos hlt]
      exact slots_setProcess_exited status

theorem slots_exitChild (pid status : Nat) (m : Master) :
    (m.exitChild pid status).slots = m.slots ∨ m.kids pid ≠ .absent ∧
      (m.exitChild pid status).slots = m.slots.setKid pid (.zombie status) := by
  rw [Master.exitChild]
  split
  · next hrunning =>
    refine .inr ⟨?_, rfl⟩
    intro habsent
    rw [hrunning] at habsent
    cases habsent
  · exact .inl rfl

/-- After `waitpid` the child of the marked slot is gone. -/
theorem slots_waitChild (pid : Nat) (m : Master) :
    (m.waitChild pid).slots = m.slots ∨
    (m.waitChild pid).slots = m.slots.setKid pid .absent ∨
    ∃ i, (∀ p : Nat, (m.processes i).pid = p → update m.kids pid .absent p = .absent) ∧
      (m.waitChild pid).slots = (m.slots.setKid pid .absent).mark i := by
  rw [Master.waitChild]
  split
  · next status _ =>
    rcases slots_markExited pid status { m with kids := update m.kids pid .absent } with
      ⟨heq, -⟩ | ⟨i, -, hpid, heq⟩
    · exact .inr (.inl heq)
    · refine .inr (.inr ⟨i, ?_, heq⟩)
      intro p hp
      have hsame : p = pid := by
        have : (pid : Int) = p := hpid.symm.trans hp
        omega
      rw [hsame, Function.update_self]
  · exact .inl rfl

-- ----------------------------------------------------------------------------
-- `ngx_reap_children`
-- ----------------------------------------------------------------------------

/-- The child of the slot is started again. -/
def Master.respawns (m : Master) (i : Nat) : Bool :=
  let p := m.processes i
  p.pid ≠ -1 && p.exited && p.respawn && !p.exiting && !m.terminate && !m.quit

theorem respawns_exited {m : Master} {i : Nat} (h : m.respawns i = true) :
    (m.processes i).exited = true := by
  simp only [Master.respawns, Bool.and_eq_true] at h
  exact h.1.1.1.1.2

theorem slots_closeChannel (i : Nat) (r : Reaping) :
    (r.closeChannel i).master.slots = r.master.slots := by
  show (r.master.setProcess i fun p => { p with channel := (-1, -1) }).slots = r.master.slots
  exact slots_setProcess rfl

theorem slots_respawnChild (i : Nat) (o : SpawnOutcome) (r : Reaping) :
    (r.respawnChild i o).master.slots = r.master.slots ∧ (r.respawnChild i o).live = r.live ∨
    ∃ pid, r.master.forked i o = some pid ∧ (r.respawnChild i o).master.slots
      = r.master.slots.enter i pid (r.master.processes i).detached r.master.lastProcess ∧
      (r.respawnChild i o).live = true := by
  rw [Reaping.respawnChild]
  rcases spawnProcess_cases i o r.master with ⟨slot, channel, -, heq⟩ | ⟨pid, channel, -, hfork, -, heq⟩
  · rw [heq]
    dsimp only
    rw [if_pos rfl]
    exact .inl ⟨slots_failed slot channel, rfl⟩
  · rw [heq, chooseSlot_of_slot]
    have hpid : (pid : Int) ≠ invalidPid := by
      rw [invalidPid]
      omega
    have hdetached : ((r.master.processes i).spawned i channel pid).detached
        = (r.master.processes i).detached := by
      rw [Process.spawned, if_pos (Int.natCast_nonneg i)]
    dsimp only
    rw [if_neg hpid]
    refine .inr ⟨pid, hfork, ?_, rfl⟩
    show (r.master.entered i i pid channel).slots = _
    rw [slots_entered, hdetached, if_neg (by omega)]

theorem slots_freeSlot (i : Nat) (r : Reaping) :
    (r.freeSlot i).master.slots = r.master.slots.free i ∧ (r.freeSlot i).live = r.live := by
  rw [Reaping.freeSlot, Slots.free]
  by_cases h : i + 1 = r.master.lastProcess
  · rw [if_pos h, if_pos (by exact h)]
    exact ⟨rfl, rfl⟩
  · rw [if_neg h, if_neg (by exact h)]
    simp only [Master.slots, Master.setProcess, entry_update, and_true]
    rfl

/-- What a turn of `ngx_reap_children` can do to the slots and to `live`. -/
theorem slots_reapSlot (o : SpawnOutcome) (i : Nat) (r : Reaping) :
    ((r.reapSlot o i).master.slots = r.master.slots ∧
      ((r.reapSlot o i).live = true ∨ (r.reapSlot o i).live = r.live ∧
        ((r.master.processes i).pid = -1 ∨ (r.master.processes i).exited = true ∨
          (r.master.processes i).detached = true))) ∨
    (∃ pid, r.master.respawns i = true ∧ r.master.forked i o = some pid ∧
      (r.reapSlot o i).master.slots
        = r.master.slots.enter i pid (r.master.processes i).detached r.master.lastProcess ∧
      (r.reapSlot o i).live = true) ∨
    (r.master.processes i).exited = true ∧ (r.reapSlot o i).master.slots = r.master.slots.free i ∧
      (r.reapSlot o i).live = r.live := by
  rw [Reaping.reapSlot]
  split
  · next hpid => exact .inl ⟨rfl, .inr ⟨rfl, .inl hpid⟩⟩
  · next hpid =>
    split
    · next hexited =>
      -- the turn goes on with the channel of the slot closed
      obtain ⟨r', hr', hslots, hlive, hterminate, hquit⟩ : ∃ r',
          (if !(r.master.processes i).detached then r.closeChannel i else r) = r' ∧
          r'.master.slots = r.master.slots ∧ r'.live = r.live ∧
          r'.master.terminate = r.master.terminate ∧ r'.master.quit = r.master.quit := by
        by_cases hdetached : (!(r.master.processes i).detached) = true
        · rw [if_pos hdetached]
          exact ⟨_, rfl, slots_closeChannel i r, rfl, rfl, rfl⟩
        · rw [if_neg hdetached]
          exact ⟨r, rfl, rfl, rfl, rfl, rfl⟩
      have hforked : r'.master.forked i o = r.master.forked i o := by
        rw [Master.forked, Master.forked, show r'.master.kids = r.master.kids from
          congrArg Slots.kids hslots]
      have hdetached : (r'.master.processes i).detached = (r.master.processes i).detached :=
        congrArg (fun t : Slots => (t.entry i).detached) hslots
      have hlast : r'.master.lastProcess = r.master.lastProcess := congrArg Slots.last hslots
      dsimp only
      rw [hr', hterminate, hquit]
      split
      · next hrespawn =>
        have hrespawns : r.master.respawns i = true := by
          simp only [Bool.and_eq_true] at hrespawn
          simp [Master.respawns, hpid, hexited, hrespawn]
        rcases slots_respawnChild i o r' with ⟨heq, hsame⟩ | ⟨pid, hfork, heq, htrue⟩
        · exact .inl ⟨heq.trans hslots, .inr ⟨hsame.trans hlive, .inr (.inl hexited)⟩⟩
        · rw [hforked] at hfork
          rw [hslots, hdetached, hlast] at heq
          exact .inr (.inl ⟨pid, hrespawns, hfork, heq, htrue⟩)
      · obtain ⟨heq, hsame⟩ := slots_freeSlot i r'
        rw [hslots] at heq
        exact .inr (.inr ⟨hexited, heq, hsame.trans hlive⟩)
    · split
      · exact .inl ⟨rfl, .inl rfl⟩
      · next hquiet =>
        simp only [Bool.or_eq_true, not_or, Bool.not_eq_true, Bool.not_eq_false'] at hquiet
        exact .inl ⟨rfl, .inr ⟨rfl, .inr (.inr hquiet.2)⟩⟩

/-- `ngx_last_process` shrinks in the last turn only. -/
theorem reapSlot_lastProcess (o : SpawnOutcome) (i : Nat) (r : Reaping) :
    (r.reapSlot o i).master.lastProcess = r.master.lastProcess ∨
      i + 1 = r.master.lastProcess ∧ (r.reapSlot o i).master.lastProcess = i := by
  rcases slots_reapSlot o i r with ⟨heq, -⟩ | ⟨pid, -, -, heq, -⟩ | ⟨-, heq, -⟩
  · exact .inl (congrArg Slots.last heq)
  · exact .inl (congrArg Slots.last heq)
  · have hlast : (r.reapSlot o i).master.lastProcess = (r.master.slots.free i).last :=
      congrArg Slots.last heq
    rw [hlast, Slots.free]
    split
    · next h => exact .inr ⟨h, rfl⟩
    · exact .inl rfl

end Refinement

end LinuxCodeDemos.Ngx

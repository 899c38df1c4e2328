/-
  LinuxCodeDemos.Ngx.Allocation

  Allocation of process slots over whole runs of the master.

  A run is made of spawns with negative codes, exits of children, `waitpid`, the
  flags of the shutdown signals and passes of `ngx_reap_children`, one slot a step
  (`reap_pass`: such steps make up the whole pass).

  The slots stay in step with the children as long as no `fork` returns a process
  id that another slot below `ngx_last_process` still holds (`FreshPid`).  The
  kernel may hand out an id again once its child has been waited for, and a slot
  whose respawn failed keeps the id of its dead child (`slots_shared`).
-/

import LinuxCodeDemos.Ngx.Slots
import LinuxCodeDemos.Lib.Run

namespace LinuxCodeDemos.Ngx

open Lib
open Function (update)

-- ============================================================================
-- Runs
-- ============================================================================

/-- Between the calls, or before slot `i` in the loop of `ngx_reap_children`. -/
inductive Place where
  | idle
  | reaping (i : Nat) (ch : Channel) (live : Bool)
  deriving DecidableEq, Repr

structure MasterRun where
  master : Master
  place : Place

inductive Event where
  | spawn (respawn : Int) (o : SpawnOutcome)
  | exit (pid status : Nat)
  | wait (pid : Nat)
  | shutdown (terminate quit : Bool)
  | reap (o : SpawnOutcome)
  deriving DecidableEq, Repr

namespace MasterRun

def start : MasterRun := { master := Master.start, place := .idle }

/-- One step; the master is busy during a pass, its children are not. -/
def next (x : MasterRun) (e : Event) : MasterRun :=
  match e, x.place with
  | .exit pid status, _ => { x with master := x.master.exitChild pid status }
  | .spawn respawn o, .idle =>
      if respawn < 0 then { x with master := (x.master.spawnProcess respawn o).2 } else x
  | .wait pid, .idle => { x with master := x.master.waitChild pid }
  | .shutdown terminate quit, .idle =>
      { x with master := { x.master with
        terminate := x.master.terminate || terminate, quit := x.master.quit || quit } }
  | .reap _, .idle =>
      let r := Reaping.start x.master
      { master := r.master, place := .reaping 0 r.ch r.live }
  | .reap o, .reaping i ch live =>
      if i < x.master.lastProcess then
        let r := Reaping.reapSlot o i { master := x.master, ch, live }
        { master := r.master, place := .reaping (i + 1) r.ch r.live }
      else { x with place := .idle }
  | _, .reaping _ _ _ => x

def step (x : MasterRun) (e : Event) : Except Empty MasterRun := .ok (x.next e)

/-- The slot and the id of the child that a step forks. -/
def forks (x : MasterRun) : Event → Option (Nat × Nat)
  | .spawn respawn o =>
      let s := x.master.chooseSlot respawn
      if x.place = .idle ∧ respawn < 0 ∧ s ≠ maxProcesses then
        (x.master.forked respawn o).map fun pid => (s, pid)
      else none
  | .reap o =>
      match x.place with
      | .idle => none
      | .reaping i _ _ =>
          if i < x.master.lastProcess ∧ x.master.respawns i then
            (x.master.forked i o).map fun pid => (i, pid)
          else none
  | _ => none

/-- `fork` does not return an id that another slot still holds. -/
def FreshPid (x : MasterRun) (e : Event) : Prop :=
  ∀ f ∈ x.forks e, ∀ u < x.master.lastProcess, u ≠ f.1 → (x.master.processes u).pid ≠ f.2

instance (x : MasterRun) (e : Event) : Decidable (FreshPid x e) :=
  match h : x.forks e with
  | none => .isTrue (by rw [FreshPid, h]; intro f hf; cases hf)
  | some f =>
      decidable_of_iff
        (∀ u < x.master.lastProcess, u ≠ f.1 → (x.master.processes u).pid ≠ f.2)
        (by rw [FreshPid, h]; simp)

end MasterRun

/-- The child of the slot has not been waited for. -/
def Master.Alive (m : Master) (s : Nat) : Prop :=
  s < m.lastProcess ∧ ∃ pid : Nat, m.kids pid ≠ .absent ∧ (m.processes s).pid = pid

/-- What is asked of the slots. -/
structure SlotsOk (x : MasterRun) : Prop where
  last_le : x.master.lastProcess ≤ maxProcesses
  one_slot : ∀ pid, x.master.kids pid ≠ .absent →
    ∃! s, s < x.master.lastProcess ∧ (x.master.processes s).pid = pid
  spawn_dead : ∀ respawn < 0, ¬ x.master.Alive (x.master.chooseSlot respawn)
  respawn_dead : ∀ i ch live, x.place = .reaping i ch live → x.master.respawns i = true →
    ¬ x.master.Alive i

-- ============================================================================
-- Steps
-- ============================================================================

section Steps

variable {x : MasterRun} {e : Event}

theorem SlotsOk.of_inv (h : x.master.slots.SlotInv) : SlotsOk x := by
  have halive : ∀ s, x.master.Alive s → (x.master.processes s).pid ≠ -1 ∧
      (x.master.processes s).exited = false := by
    rintro s ⟨hlt, pid, hkid, hpid⟩
    refine ⟨by omega, ?_⟩
    by_contra hexited
    exact hkid (h.dead s hlt (Bool.eq_true_of_not_eq_false hexited) pid hpid)
  constructor
  case last_le => exact h.last_le
  case one_slot =>
    intro pid hpid
    obtain ⟨s, hs, heq, -⟩ := h.owner pid hpid
    refine ⟨s, ⟨hs, heq⟩, ?_⟩
    rintro u ⟨hu, hupid⟩
    refine h.distinct u hu s hs (hupid.trans heq.symm) ?_
    rw [show (x.master.slots.entry u).pid = pid from hupid]
    omega
  case spawn_dead =>
    intro respawn hneg hs
    obtain ⟨hpid, hexited⟩ := halive _ hs
    rcases (chooseSlot_of_neg hneg x.master).2 hs.1 with hfree | hdead
    · exact hpid hfree
    · exact absurd hdead (Bool.eq_false_iff.mp hexited)
  case respawn_dead =>
    intro i _ _ _ hrespawn hi
    obtain ⟨-, hexited⟩ := halive _ hi
    exact absurd (respawns_exited hrespawn) (Bool.eq_false_iff.mp hexited)

theorem spawnProcess_inv {m : Master} (h : m.slots.SlotInv) {respawn : Int} (hneg : respawn < 0)
    (o : SpawnOutcome)
    (hfresh : ∀ pid, m.forked respawn o = some pid → m.chooseSlot respawn ≠ maxProcesses →
      ∀ u < m.lastProcess, u ≠ m.chooseSlot respawn → (m.processes u).pid ≠ pid) :
    (m.spawnProcess respawn o).2.slots.SlotInv := by
  obtain ⟨hle, hvacant⟩ := chooseSlot_of_neg hneg m
  rcases spawnProcess_cases respawn o m with ⟨slot, channel, -, heq⟩ | ⟨pid, channel, -, hpid, hmax, heq⟩
  · rw [heq]
    dsimp only
    rw [slots_failed]
    exact h
  · have hmax : m.chooseSlot respawn ≠ maxProcesses := fun hs => hmax ⟨hneg, hs⟩
    have hfresh := hfresh pid hpid hmax
    have hlast := h.last_le
    change m.lastProcess ≤ maxProcesses at hlast
    rw [heq]
    dsimp only
    rw [slots_entered]
    generalize m.chooseSlot respawn = s at *
    by_cases hs : s = m.lastProcess
    · have hlt : m.lastProcess + 1 ≤ maxProcesses := by omega
      rw [if_pos ⟨hneg, hs⟩]
      refine h.enter hvacant (Nat.lt_succ_of_le hle) (Nat.le_succ _) hlt ?_ hfresh _
      intro u hu hne
      have hu' : u < m.lastProcess := by omega
      exact hu'
    · have hlt : s < m.lastProcess := by omega
      rw [if_neg fun h => hs h.2]
      exact h.enter hvacant hlt (Nat.le_refl _) hlast (fun u hu _ => hu) hfresh _

theorem waitChild_inv {m : Master} (h : m.slots.SlotInv) (pid : Nat) :
    (m.waitChild pid).slots.SlotInv := by
  have habsent : (m.slots.setKid pid .absent).SlotInv := h.setKid (.inl rfl)
  rcases slots_waitChild pid m with heq | heq | ⟨i, hgone, heq⟩
  · rw [heq]
    exact h
  · rw [heq]
    exact habsent
  · rw [heq]
    exact habsent.mark hgone

theorem reapSlot_inv {r : Reaping} (h : r.master.slots.SlotInv) {i : Nat}
    (hi : i < r.master.lastProcess) (o : SpawnOutcome)
    (hfresh : ∀ pid, r.master.forked i o = some pid → r.master.respawns i = true →
      ∀ u < r.master.lastProcess, u ≠ i → (r.master.processes u).pid ≠ pid) :
    (r.reapSlot o i).master.slots.SlotInv := by
  rcases slots_reapSlot o i r with ⟨heq, -⟩ | ⟨pid, hrespawn, hpid, heq, -⟩ | ⟨hexited, heq, -⟩
  · rw [heq]
    exact h
  · rw [heq]
    exact h.enter (fun _ => .inr (respawns_exited hrespawn)) hi (Nat.le_refl _) h.last_le
      (fun u hu _ => hu) (hfresh pid hpid hrespawn) _
  · rw [heq]
    exact h.free hexited

/-- Every step that meets the condition keeps the slots in step. -/
theorem MasterRun.next_inv (h : x.master.slots.SlotInv) (hfresh : x.FreshPid e) :
    (x.next e).master.slots.SlotInv := by
  obtain ⟨m, place⟩ := x
  cases e with
  | exit pid status =>
      rcases slots_exitChild pid status m with heq | ⟨hkid, heq⟩
      · exact heq ▸ h
      · exact heq ▸ h.setKid (.inr hkid)
  | spawn respawn o =>
      cases place with
      | reaping i ch live => exact h
      | idle =>
          simp only [MasterRun.next]
          split
          · next hneg =>
            refine spawnProcess_inv h hneg o ?_
            intro pid hpid hmax
            refine hfresh (m.chooseSlot respawn, pid) ?_
            rw [MasterRun.forks]
            dsimp only
            rw [if_pos ⟨rfl, hneg, hmax⟩, hpid]
            rfl
          · exact h
  | wait pid =>
      cases place with
      | reaping i ch live => exact h
      | idle => exact waitChild_inv h pid
  | shutdown terminate quit =>
      cases place with
      | reaping i ch live => exact h
      | idle => exact h
  | reap o =>
      cases place with
      | idle => exact h
      | reaping i ch live =>
          simp only [MasterRun.next]
          split
          · next hi =>
            refine reapSlot_inv (r := { master := m, ch, live }) h hi o ?_
            intro pid hpid hrespawn
            refine hfresh (i, pid) ?_
            rw [MasterRun.forks]
            dsimp only at hpid hrespawn ⊢
            rw [if_pos ⟨hi, hrespawn⟩, hpid]
            rfl
          · exact h

end Steps

-- ============================================================================
-- Passes
-- ============================================================================

/-- The rest of a pass from slot `i` on. -/
theorem reap_rest (outcomes : Nat → SpawnOutcome) (o : SpawnOutcome) (n i : Nat) (r : Reaping)
    (hlast : r.master.lastProcess = i + n ∨ n = 0 ∧ r.master.lastProcess ≤ i) :
    runSteps MasterRun.step { master := r.master, place := .reaping i r.ch r.live }
        ((List.range' i n).map (fun j => .reap (outcomes j)) ++ [.reap o])
      = .ok { master := ((List.range' i n).foldl (fun r j => if j < r.master.lastProcess then
          r.reapSlot (outcomes j) j else r) r).master, place := .idle } := by
  induction n generalizing i r with
  | zero =>
      have hend : ¬ i < r.master.lastProcess := by omega
      have hstep : MasterRun.step { master := r.master, place := .reaping i r.ch r.live } (.reap o)
          = .ok { master := r.master, place := .idle } := congrArg Except.ok (if_neg hend)
      exact (runSteps_cons_ok hstep []).trans rfl
  | succ n ih =>
      have hi : i < r.master.lastProcess := by omega
      rw [List.range'_succ, List.map_cons, List.cons_append, List.foldl_cons, if_pos hi]
      rw [← ih (i + 1) (r.reapSlot (outcomes i) i)]
      · exact runSteps_cons_ok (congrArg Except.ok (if_pos hi)) _
      · rcases reapSlot_lastProcess (outcomes i) i r with heq | ⟨hend, heq⟩
        · omega
        · omega

/-- The steps of a pass make up `ngx_reap_children`. -/
theorem reap_pass (outcomes : Nat → SpawnOutcome) (o : SpawnOutcome) (m : Master) :
    runSteps MasterRun.step { master := m, place := .idle }
        (.reap o :: ((List.range m.lastProcess).map (fun i => .reap (outcomes i)) ++ [.reap o]))
      = .ok { master := (m.reapChildren outcomes).master, place := .idle } := by
  have hrest := reap_rest outcomes o m.lastProcess 0 (Reaping.start m)
    (.inl (Nat.zero_add _).symm)
  rw [← List.range_eq_range'] at hrest
  exact (runSteps_cons_ok rfl _).trans hrest

-- ============================================================================
-- The slots over runs
-- ============================================================================

/-- The slots of a master that has just started. -/
theorem slotInv_start : MasterRun.start.master.slots.SlotInv where
  last_le := Nat.zero_le _
  owner := fun _ hp => absurd rfl hp
  distinct := fun _ hs => absurd hs (Nat.not_lt_zero _)
  dead := fun _ hs => absurd hs (Nat.not_lt_zero _)

/-- Slots and children stay in step in every run whose forks return ids that no
    other slot holds. -/
theorem slotsOk_run {events : List Event}
    (h : AlongRun MasterRun.step MasterRun.FreshPid MasterRun.start events) :
    ∃ x, runSteps MasterRun.step MasterRun.start events = .ok x ∧ SlotsOk x := by
  have hstep : ∀ (x : MasterRun) (e : Event), x.master.slots.SlotInv → x.FreshPid e →
      Ends (fun x : MasterRun => x.master.slots.SlotInv) (fun _ => False) (x.step e) :=
    fun x e hx hfresh => MasterRun.next_inv hx hfresh
  obtain ⟨x, hrun, hx⟩ := (runSteps_ends hstep slotInv_start h).exists_ok
  exact ⟨x, hrun, SlotsOk.of_inv hx⟩

/-- A worker exits, its respawn fails in `fork`, and another one is spawned. -/
def failedRespawn (pid : Nat) : List Event :=
  let refused : SpawnOutcome := { SpawnOutcome.success (5, 6) 0 with fork := none }
  [.spawn processRespawn (.success (3, 4) 100), .exit 100 0, .wait 100,
    .reap refused, .reap refused, .reap refused, .spawn processRespawn (.success (7, 8) pid)]

theorem slotsOk_failedRespawn :
    ∃ x, runSteps MasterRun.step MasterRun.start (failedRespawn 101) = .ok x ∧ SlotsOk x :=
  slotsOk_run (by decide +kernel)

/-- The kernel hands out the id of the dead child again: it stands in two slots. -/
theorem slots_shared :
    ∃ x, runSteps MasterRun.step MasterRun.start (failedRespawn 100) = .ok x ∧ ¬ SlotsOk x := by
  refine ⟨_, rfl, fun h => ?_⟩
  obtain ⟨s, -, honly⟩ := h.one_slot 100 (by decide)
  have hzero : 0 = s := honly 0 (by decide)
  have hone : 1 = s := honly 1 (by decide)
  omega

end LinuxCodeDemos.Ngx

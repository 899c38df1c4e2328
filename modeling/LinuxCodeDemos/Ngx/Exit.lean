/-
  LinuxCodeDemos.Ngx.Exit

  The master never exits over live workers.

  `live` is recomputed only when `ngx_reap` is set, so it may be stale.  It is
  never stale in the wrong direction: once a pass of `ngx_reap_children` finds
  nothing alive, there is no child left (`reapChildren_live`), and only
  `ngx_reconfigure` makes new ones, which sets `live` again.
-/

import LinuxCodeDemos.Ngx.Slots
import LinuxCodeDemos.Ngx.Cycle
import LinuxCodeDemos.Lib.Run

namespace LinuxCodeDemos.Ngx

open Lib
open Function (update)

-- ============================================================================
-- Definitions
-- ============================================================================

/-- All children have exited and have been waited for. -/
def Master.Childless (m : Master) : Prop := ∀ pid, m.kids pid = .absent

/-- Every child has its slot, and no slot is detached. -/
structure MasterInv (m : Master) : Prop where
  owner : m.slots.Owner
  attached : ∀ s, (m.slots.entry s).detached = false
  newBinary : m.newBinary = 0

/-- The invariant of the loop. -/
structure CycleInv (x : Cycle) : Prop where
  master : MasterInv x.master
  live : x.live = false → x.master.Childless
  stopped : x.stopped = true → x.master.Childless

-- ============================================================================
-- Spawning and signalling
-- ============================================================================

section Calls

variable {m m' : Master}

/-- Changes that do not concern the slots. -/
theorem MasterInv.congr (h : MasterInv m) (hslots : m'.slots = m.slots)
    (hnew : m'.newBinary = m.newBinary) : MasterInv m' := by
  constructor
  case owner =>
    rw [hslots]
    exact h.owner
  case attached =>
    rw [hslots]
    exact h.attached
  case newBinary =>
    rw [hnew]
    exact h.newBinary

/-- One new entry without `detached`. -/
theorem MasterInv.attached_update (h : MasterInv m) (i : Nat) {e : Entry}
    (he : e.detached = false) (u : Nat) : (update m.slots.entry i e u).detached = false :=
  (Function.forall_update_iff m.slots.entry fun _ e => e.detached = false).mpr
    ⟨he, fun s _ => h.attached s⟩ u

theorem MasterInv.enter (h : MasterInv m) {s pid last : Nat} (hvacant : m.slots.Vacant s)
    (hs : s < last) (hle : m.lastProcess ≤ last)
    (hslots : m'.slots = m.slots.enter s pid false last) (hnew : m'.newBinary = m.newBinary) :
    MasterInv m' := by
  constructor
  case owner =>
    rw [hslots]
    exact h.owner.enter hvacant hs hle false
  case attached =>
    rw [hslots]
    exact h.attached_update s rfl
  case newBinary =>
    rw [hnew]
    exact h.newBinary

/-- A spawn of a worker. -/
theorem MasterInv.spawnProcess (h : MasterInv m) {type : Int}
    (htype : type = processRespawn ∨ type = processJustRespawn) (o : SpawnOutcome) :
    MasterInv (m.spawnProcess type o).2 := by
  have hneg : type < 0 := by
    rcases htype with rfl | rfl
    · decide
    · decide
  have hattached : ∀ (p : Process) channel pid, (p.spawned type channel pid).detached = false := by
    intro p channel pid
    rcases htype with rfl | rfl
    · rfl
    · rfl
  obtain ⟨hle, hvacant⟩ := chooseSlot_of_neg hneg m
  rcases spawnProcess_cases type o m with ⟨slot, channel, -, heq⟩ | ⟨pid, channel, -, -, -, heq⟩
  · rw [heq]
    exact h.congr (slots_failed slot channel) rfl
  · have hslots := slots_entered m type (m.chooseSlot type) pid channel
    rw [hattached] at hslots
    rw [heq]
    refine h.enter hvacant ?_ ?_ hslots rfl
    · split
      · omega
      · omega
    · split
      · exact Nat.le_succ _
      · exact Nat.le_refl _

theorem MasterInv.startWorkerProcesses (h : MasterInv m) (n : Nat) {type : Int}
    (htype : type = processRespawn ∨ type = processJustRespawn) (outcomes : Nat → SpawnOutcome) :
    MasterInv (m.startWorkerProcesses n type outcomes) := by
  refine List.foldlRecOn (List.range n) _ h fun m hm i _ => ?_
  exact (hm.spawnProcess htype (outcomes i)).congr rfl rfl

theorem kill_eq_esrch {pid : Int} {result : KillResult} (h : m.kill pid result = .esrch) :
    m.kids pid.toNat = .absent := by
  rw [Master.kill] at h
  split at h
  · cases h
  · next hno =>
    by_contra hkid
    exact hno ⟨h, hkid⟩

/-- What one turn of `ngx_signal_worker_processes` can do to the slots. -/
theorem slots_signalSlot (signo : Signo) (o : SignalOutcome) (m : Master) (i : Nat) :
    (m.signalSlot signo o i).kids = m.kids ∧ (m.signalSlot signo o i).newBinary = m.newBinary ∧
    ((m.signalSlot signo o i).slots = m.slots ∨
      m.kids (m.processes i).pid.toNat = .absent ∧
        (m.signalSlot signo o i).slots = m.slots.mark i) := by
  -- the flag `exiting` does not concern the slots
  have hexiting : ∀ m' : Master,
      m'.kids = m.kids ∧ m'.newBinary = m.newBinary ∧ m'.slots = m.slots →
      let m'' := if signo ≠ .usr1 then m'.setProcess i fun p => { p with exiting := true } else m'
      m''.kids = m.kids ∧ m''.newBinary = m.newBinary ∧ m''.slots = m.slots := by
    rintro m' ⟨hkids, hnew, hslots⟩
    dsimp only
    split
    · exact ⟨hkids, hnew, (slots_setProcess rfl).trans hslots⟩
    · exact ⟨hkids, hnew, hslots⟩
  rw [Master.signalSlot]
  dsimp only
  split
  · exact ⟨rfl, rfl, .inl rfl⟩
  · split
    · exact ⟨rfl, rfl, .inl (slots_setProcess rfl)⟩
    · split
      · exact ⟨rfl, rfl, .inl rfl⟩
      · split
        · obtain ⟨hkids, hnew, hslots⟩ := hexiting
            { m with log := m.log ++ [.write i (m.processes i).channel.1
              { command := signo.command, pid := 0, slot := 0, fd := -1 }] } ⟨rfl, rfl, rfl⟩
          exact ⟨hkids, hnew, .inl hslots⟩
        · split
          · next hkill =>
            refine ⟨rfl, rfl, .inr ⟨kill_eq_esrch hkill, ?_⟩⟩
            simp only [Master.slots, Master.setProcess, entry_update, Slots.mark]
            rfl
          · exact ⟨rfl, rfl, .inl rfl⟩
          · obtain ⟨hkids, hnew, hslots⟩ := hexiting m ⟨rfl, rfl, rfl⟩
            exact ⟨hkids, hnew, .inl hslots⟩

/-- Marking a slot whose child is gone. -/
theorem MasterInv.mark (h : MasterInv m) {i : Nat}
    (hgone : ∀ p : Nat, (m.slots.entry i).pid = p → m.kids p = .absent)
    (hslots : m'.slots = m.slots.mark i) (hnew : m'.newBinary = m.newBinary) : MasterInv m' := by
  constructor
  case owner =>
    rw [hslots]
    exact h.owner.mark hgone
  case attached =>
    rw [hslots]
    exact h.attached_update i (h.attached i)
  case newBinary =>
    rw [hnew]
    exact h.newBinary

theorem MasterInv.signalWorkerProcesses (h : MasterInv m) (signo : Signo) (o : SignalOutcome) :
    MasterInv (m.signalWorkerProcesses signo o) := by
  refine List.foldlRecOn (List.range m.lastProcess) _ h fun m hm i _ => ?_
  obtain ⟨-, hnew, hslots | ⟨hgone, hslots⟩⟩ := slots_signalSlot signo o m i
  · exact hm.congr hslots hnew
  · refine hm.mark ?_ hslots hnew
    intro p hp
    rw [show (m.processes i).pid = p from hp] at hgone
    exact hgone

theorem kids_signalWorkerProcesses (signo : Signo) (o : SignalOutcome) (m : Master) :
    (m.signalWorkerProcesses signo o).kids = m.kids := by
  refine List.foldlRecOn (motive := fun m' : Master => m'.kids = m.kids) (List.range m.lastProcess) _ rfl
    fun m' hm' i _ => ?_
  exact (slots_signalSlot signo o m' i).1.trans hm'

-- ============================================================================
-- Handlers
-- ============================================================================

theorem MasterInv.setKid (h : MasterInv m) {pid : Nat} {kid : Kid}
    (hkid : kid = .absent ∨ m.kids pid ≠ .absent) (hslots : m'.slots = m.slots.setKid pid kid)
    (hnew : m'.newBinary = m.newBinary) : MasterInv m' := by
  constructor
  case owner =>
    rw [hslots]
    exact h.owner.setKid hkid
  case attached =>
    rw [hslots]
    exact h.attached
  case newBinary =>
    rw [hnew]
    exact h.newBinary

theorem newBinary_waitChild (pid : Nat) (m : Master) : (m.waitChild pid).newBinary = m.newBinary := by
  rw [Master.waitChild]
  split
  · simp only [Master.markExited]
    split
    · split
      · rfl
      · rfl
    · split
      · rfl
      · rfl
  · rfl

theorem MasterInv.waitChild (h : MasterInv m) (pid : Nat) : MasterInv (m.waitChild pid) := by
  have hnew := newBinary_waitChild pid m
  rcases slots_waitChild pid m with heq | heq | ⟨i, hgone, heq⟩
  · exact h.congr heq hnew
  · exact h.setKid (.inl rfl) heq hnew
  · have habsent : MasterInv { m with kids := update m.kids pid .absent } :=
      h.setKid (.inl rfl) rfl rfl
    exact habsent.mark hgone heq hnew

theorem MasterInv.exitChild (h : MasterInv m) (pid status : Nat) :
    MasterInv (m.exitChild pid status) := by
  have hnew : (m.exitChild pid status).newBinary = m.newBinary := by
    rw [Master.exitChild]
    split <;> rfl
  rcases slots_exitChild pid status m with heq | ⟨hkid, heq⟩
  · exact h.congr heq hnew
  · exact h.setKid (.inr hkid) heq hnew

theorem MasterInv.happen (h : MasterInv m) (e : Happening) : MasterInv (m.happen e) := by
  cases e with
  | exit pid status => exact h.exitChild pid status
  | signal signo waits parent =>
      show MasterInv (m.signalHandler signo waits parent)
      cases signo with
      | chld =>
          refine List.foldlRecOn waits _ (h.congr rfl rfl) fun m hm pid _ => ?_
          exact hm.waitChild pid
      | winch =>
          rw [Master.signalHandler]
          split
          · exact h.congr rfl rfl
          · exact h
      | usr2 =>
          rw [Master.signalHandler]
          split
          · exact h
          · exact h.congr rfl rfl
      | hup | usr1 | term | quit | alrm | int | io => exact h.congr rfl rfl

/-- Without children nothing exits and nothing is waited for. -/
theorem Master.Childless.happen (h : m.Childless) (e : Happening) : (m.happen e).Childless := by
  cases e with
  | exit pid status =>
      have hno : ¬ m.kids pid = .running := by
        intro hrunning
        rw [h pid] at hrunning
        cases hrunning
      show (m.exitChild pid status).Childless
      rw [Master.exitChild, if_neg hno]
      exact h
  | signal signo waits parent =>
      show (m.signalHandler signo waits parent).Childless
      cases signo with
      | chld =>
          refine List.foldlRecOn (motive := Master.Childless) waits _ h fun m hm pid _ => ?_
          rw [Master.waitChild, hm pid]
          exact hm
      | winch | usr2 =>
          rw [Master.signalHandler]
          split
          · exact h
          · exact h
      | hup | usr1 | term | quit | alrm | int | io => exact h

end Calls

-- ============================================================================
-- Reaping
-- ============================================================================

section Reap

variable {r : Reaping}

theorem newBinary_respawnChild (i : Nat) (o : SpawnOutcome) (r : Reaping) :
    (r.respawnChild i o).master.newBinary = r.master.newBinary := by
  rw [Reaping.respawnChild]
  rcases spawnProcess_cases i o r.master with ⟨slot, channel, -, heq⟩ | ⟨pid, channel, -, -, -, heq⟩
  · rw [heq]
    rfl
  · rw [heq]
    dsimp only
    split
    · rfl
    · rfl

theorem newBinary_reapSlot (o : SpawnOutcome) (i : Nat) (r : Reaping) :
    (r.reapSlot o i).master.newBinary = r.master.newBinary := by
  have hclose : (if !(r.master.processes i).detached then r.closeChannel i else r).master.newBinary
      = r.master.newBinary := by
    split <;> rfl
  rw [Reaping.reapSlot]
  dsimp only
  generalize (if !(r.master.processes i).detached then r.closeChannel i else r) = r' at hclose ⊢
  split
  · rfl
  · split
    · split
      · rw [newBinary_respawnChild, hclose]
      · rw [Reaping.freeSlot]
        split
        · exact hclose
        · exact hclose
    · split <;> rfl

/-- Giving up a slot whose child has exited. -/
theorem MasterInv.free {m m' : Master} (h : MasterInv m) {i : Nat}
    (hexited : (m.slots.entry i).exited = true) (hslots : m'.slots = m.slots.free i)
    (hnew : m'.newBinary = m.newBinary) : MasterInv m' := by
  constructor
  case owner =>
    rw [hslots]
    exact h.owner.free hexited
  case attached =>
    rw [hslots, Slots.free]
    split
    · exact h.attached
    · exact h.attached_update i (h.attached i)
  case newBinary =>
    rw [hnew]
    exact h.newBinary

theorem MasterInv.reapSlot (h : MasterInv r.master) {i : Nat} (hi : i < r.master.lastProcess)
    (o : SpawnOutcome) : MasterInv (r.reapSlot o i).master := by
  have hnew := newBinary_reapSlot o i r
  rcases slots_reapSlot o i r with ⟨heq, -⟩ | ⟨pid, hrespawn, -, heq, -⟩ | ⟨hexited, heq, -⟩
  · exact h.congr heq hnew
  · rw [show (r.master.processes i).detached = false from h.attached i] at heq
    exact h.enter (fun _ => .inr (respawns_exited hrespawn)) hi (Nat.le_refl _) heq hnew
  · exact h.free hexited heq hnew

/-- The slots before `i` are free or their children have exited. -/
def Slots.SeenDead (t : Slots) (i : Nat) : Prop :=
  ∀ s < i, s < t.last → (t.entry s).pid = -1 ∨ (t.entry s).exited = true

theorem seenDead_reapSlot {i : Nat} (hattached : (r.master.processes i).detached = false)
    (h : r.live = false → r.master.slots.SeenDead i) (o : SpawnOutcome)
    (hdead : (r.reapSlot o i).live = false) : (r.reapSlot o i).master.slots.SeenDead (i + 1) := by
  rcases slots_reapSlot o i r with ⟨heq, hlive⟩ | ⟨pid, -, -, -, hlive⟩ | ⟨-, heq, hlive⟩
  · rcases hlive with hlive | ⟨hlive, hslot⟩
    · rw [hlive] at hdead
      cases hdead
    · rw [hlive] at hdead
      rw [heq]
      intro s hs hlt
      rcases Nat.lt_succ_iff_lt_or_eq.mp hs with hbefore | hthis
      · exact h hdead s hbefore hlt
      · rw [hthis]
        rcases hslot with hfree | hexited | hdetached
        · exact .inl hfree
        · exact .inr hexited
        · exact absurd hdetached (Bool.eq_false_iff.mp hattached)
  · rw [hlive] at hdead
    cases hdead
  · rw [hlive] at hdead
    rw [heq, Slots.free]
    split
    · next hlast =>
      -- the slot is beyond the end of the table now
      intro s _ hlt
      have hbefore : s < i := hlt
      exact h hdead s hbefore (by omega)
    · intro s hs hlt
      show (update r.master.slots.entry i _ s).pid = -1 ∨
        (update r.master.slots.entry i _ s).exited = true
      rcases Nat.lt_succ_iff_lt_or_eq.mp hs with hbefore | hthis
      · rw [Function.update_of_ne (Nat.ne_of_lt hbefore)]
        exact h hdead s hbefore hlt
      · rw [hthis, Function.update_self]
        exact .inl rfl

/-- What holds before slot `i` of a pass over `n` slots. -/
structure ReapInv (n i : Nat) (r : Reaping) : Prop where
  master : MasterInv r.master
  last_le : r.master.lastProcess ≤ n
  seen : r.live = false → r.master.slots.SeenDead i

theorem reapInv_pass {m : Master} (h : MasterInv m) (outcomes : Nat → SpawnOutcome) (i : Nat) :
    ReapInv m.lastProcess i ((List.range i).foldl (fun r j => if j < r.master.lastProcess then
      r.reapSlot (outcomes j) j else r) (Reaping.start m)) := by
  induction i with
  | zero => exact ⟨h, Nat.le_refl _, fun _ _ hs => absurd hs (Nat.not_lt_zero _)⟩
  | succ i ih =>
      rw [List.range_succ, List.foldl_append, List.foldl_cons, List.foldl_nil]
      revert ih
      generalize (List.range i).foldl _ (Reaping.start m) = r
      rintro ⟨hmaster, hlast, hseen⟩
      split
      · next hi =>
        refine ⟨hmaster.reapSlot hi _, ?_, seenDead_reapSlot (hmaster.attached i) hseen _⟩
        rcases reapSlot_lastProcess (outcomes i) i r with heq | ⟨-, heq⟩
        · omega
        · omega
      · refine ⟨hmaster, hlast, fun hdead s hs hlt => hseen hdead s ?_ hlt⟩
        have hlt' : s < r.master.lastProcess := hlt
        omega

/-- A pass that finds nothing alive leaves no child. -/
theorem reapChildren_live {m : Master} (h : MasterInv m) (outcomes : Nat → SpawnOutcome) :
    MasterInv (m.reapChildren outcomes).master ∧
      ((m.reapChildren outcomes).live = false → (m.reapChildren outcomes).master.Childless) := by
  obtain ⟨hmaster, hlast, hseen⟩ := reapInv_pass h outcomes m.lastProcess
  refine ⟨hmaster, fun hdead pid => ?_⟩
  by_contra hkid
  obtain ⟨s, hs, hpid, hexited⟩ := hmaster.owner pid hkid
  rcases hseen hdead s (Nat.lt_of_lt_of_le hs hlast) hs with hfree | hgone
  · rw [hfree] at hpid
    omega
  · rw [hgone] at hexited
    cases hexited

end Reap

-- ============================================================================
-- The loop
-- ============================================================================

section Loop

variable {x : Cycle}

theorem CycleInv.sigsuspend (h : CycleInv x) (happenings : List Happening) :
    CycleInv (x.sigsuspend happenings) := by
  have hchildless : x.master.Childless → (x.sigsuspend happenings).master.Childless :=
    fun hno => List.foldlRecOn (motive := Master.Childless) happenings _ hno
      fun _ hm e _ => hm.happen e
  constructor
  case master => exact List.foldlRecOn happenings _ h.master fun _ hm e _ => hm.happen e
  case live => exact fun hlive => hchildless (h.live hlive)
  case stopped => exact fun hstopped => hchildless (h.stopped hstopped)

/-- Steps that make no children. -/
theorem CycleInv.of_kids (h : CycleInv x) {y : Cycle} (hmaster : MasterInv y.master)
    (hkids : y.master.kids = x.master.kids) (hlive : y.live = x.live)
    (hstopped : y.stopped = x.stopped) : CycleInv y := by
  have hchildless : x.master.Childless → y.master.Childless := by
    intro hno pid
    rw [hkids]
    exact hno pid
  constructor
  case master => exact hmaster
  case live => exact fun hdead => hchildless (h.live (hlive ▸ hdead))
  case stopped => exact fun hdone => hchildless (h.stopped (hstopped ▸ hdone))

/-- Steps that set `live`. -/
theorem CycleInv.of_live {y : Cycle} (hmaster : MasterInv y.master) (hlive : y.live = true)
    (hstopped : y.stopped = false) : CycleInv y := by
  constructor
  case master => exact hmaster
  case live =>
    intro hdead
    rw [hlive] at hdead
    cases hdead
  case stopped =>
    intro hdone
    rw [hstopped] at hdone
    cases hdone

theorem CycleInv.setTimer (h : CycleInv x) : CycleInv x.setTimer := by
  rw [Cycle.setTimer]
  split
  · exact h.of_kids (h.master.congr rfl rfl) rfl rfl rfl
  · exact h

theorem CycleInv.reapChildren (h : CycleInv x) (hrun : x.stopped = false)
    (outcomes : Nat → SpawnOutcome) : CycleInv (x.reapChildren outcomes) := by
  rw [Cycle.reapChildren]
  split
  · have hstart : MasterInv { x.master with reap := false } := h.master.congr rfl rfl
    obtain ⟨hmaster, hlive⟩ := reapChildren_live hstart outcomes
    refine ⟨hmaster, hlive, fun hdone => ?_⟩
    rw [show x.stopped = true from hdone] at hrun
    cases hrun
  · exact h

theorem CycleInv.terminating (h : CycleInv x) (o : SignalOutcome) : CycleInv (x.terminating o) := by
  have hdelay : CycleInv (if x.delay = 0 then { x with delay := 50 } else x) := by
    split
    · exact h.of_kids h.master rfl rfl rfl
    · exact h
  rw [Cycle.terminating]
  generalize (if x.delay = 0 then { x with delay := 50 } else x) = y at hdelay ⊢
  split
  · exact hdelay.of_kids hdelay.master rfl rfl rfl
  · exact hdelay.of_kids (hdelay.master.signalWorkerProcesses _ o)
      (kids_signalWorkerProcesses ..) rfl rfl

theorem CycleInv.reconfiguring (h : CycleInv x) (hrun : x.stopped = false) (i : TurnInput) :
    CycleInv (x.reconfiguring i) ∧ (x.reconfiguring i).stopped = false := by
  rw [Cycle.reconfiguring]
  split
  · refine ⟨CycleInv.of_live ?_ rfl hrun, hrun⟩
    apply MasterInv.signalWorkerProcesses
    apply MasterInv.startWorkerProcesses _ _ (.inr rfl)
    exact h.master.congr rfl rfl
  · exact ⟨h, hrun⟩

theorem CycleInv.restarting (h : CycleInv x) (hrun : x.stopped = false) (i : TurnInput) :
    CycleInv (x.restarting i) := by
  rw [Cycle.restarting]
  split
  · refine CycleInv.of_live ?_ rfl hrun
    apply MasterInv.startWorkerProcesses _ _ (.inl rfl)
    exact h.master.congr rfl rfl
  · exact h

theorem CycleInv.reopening (h : CycleInv x) (i : TurnInput) : CycleInv (x.reopening i) := by
  rw [Cycle.reopening]
  split
  · refine h.of_kids ?_ (kids_signalWorkerProcesses ..) rfl rfl
    apply MasterInv.signalWorkerProcesses
    exact h.master.congr rfl rfl
  · exact h

theorem CycleInv.changingBinary (h : CycleInv x) : CycleInv x.changingBinary := by
  rw [Cycle.changingBinary]
  split
  · exact h.of_kids (h.master.congr rfl rfl) rfl rfl rfl
  · exact h

theorem CycleInv.notAccepting (h : CycleInv x) (i : TurnInput) : CycleInv (x.notAccepting i) := by
  rw [Cycle.notAccepting]
  split
  · refine h.of_kids ?_ (kids_signalWorkerProcesses ..) rfl rfl
    apply MasterInv.signalWorkerProcesses
    exact h.master.congr rfl rfl
  · exact h

theorem CycleInv.serving (h : CycleInv x) (hrun : x.stopped = false) (i : TurnInput) :
    CycleInv (x.serving i) := by
  -- there is never a new binary
  have hbinary : ¬ (x.master.reconfigure ∧ x.master.newBinary ≠ 0) := fun hno =>
    hno.2 h.master.newBinary
  obtain ⟨hreload, hreloadrun⟩ := h.reconfiguring hrun i
  rw [Cycle.serving, if_neg hbinary]
  exact (((hreload.restarting hreloadrun i).reopening i).changingBinary).notAccepting i

/-- Every turn of the loop keeps the invariant. -/
theorem CycleInv.turn (h : CycleInv x) (i : TurnInput) : CycleInv (x.turn i) := by
  rw [Cycle.turn]
  split
  · exact h
  · next hno =>
    have hrun : x.stopped = false := Bool.eq_false_iff.mpr hno
    have hsuspended : (x.setTimer.sigsuspend i.happenings).stopped = false := by
      rw [Cycle.sigsuspend, Cycle.setTimer]
      split
      · exact hrun
      · exact hrun
    have hy := ((h.setTimer.sigsuspend i.happenings).reapChildren hsuspended i.reaped)
    have hyrun : ((x.setTimer.sigsuspend i.happenings).reapChildren i.reaped).stopped = false := by
      rw [Cycle.reapChildren]
      split
      · exact hsuspended
      · exact hsuspended
    generalize (x.setTimer.sigsuspend i.happenings).reapChildren i.reaped = y at hy hyrun ⊢
    dsimp only
    split
    · next hexit =>
      have hdead : y.live = false := by
        simp only [Bool.and_eq_true, Bool.not_eq_true'] at hexit
        exact hexit.1
      exact ⟨hy.master, fun _ => hy.live hdead, fun _ => hy.live hdead⟩
    · split
      · exact hy.terminating i.stop
      · split
        · exact hy.of_kids (hy.master.signalWorkerProcesses _ _)
            (kids_signalWorkerProcesses ..) rfl rfl
        · exact hy.serving hyrun i

end Loop

theorem cycleInv_start (outcomes : Nat → SpawnOutcome) : CycleInv (Cycle.start outcomes) := by
  have hzero : MasterInv Master.start := by
    refine ⟨?_, fun _ => rfl, rfl⟩
    intro p hp
    exact absurd rfl hp
  refine CycleInv.of_live ?_ rfl rfl
  exact (hzero.startWorkerProcesses workerProcesses (.inl rfl) outcomes).congr rfl
    (hzero.startWorkerProcesses workerProcesses (.inl rfl) outcomes).newBinary.symm

/-- When the master exits, no child that it forked is still running. -/
theorem cycle_exit (outcomes : Nat → SpawnOutcome) (inputs : List TurnInput) :
    ∃ x, runSteps Cycle.step (Cycle.start outcomes) inputs = .ok x ∧
      (x.stopped = true → ∀ pid, x.master.kids pid ≠ .running) := by
  have hstep : ∀ (x : Cycle) (i : TurnInput), CycleInv x →
      Ends CycleInv (fun _ => False) (x.step i) := fun x i hx => hx.turn i
  obtain ⟨x, hrun, hx⟩ := (runSteps_keeps hstep (cycleInv_start outcomes) inputs).exists_ok
  refine ⟨x, hrun, ?_⟩
  intro hstopped pid hrunning
  rw [hx.stopped hstopped pid] at hrunning
  cases hrunning

/-- SIGTERM, and then the worker exits. -/
def shutdownInputs : List TurnInput :=
  let quiet : SignalOutcome := { written := fun _ => true, killed := fun _ => .ok }
  let refused := fun _ => { SpawnOutcome.success (5, 6) 0 with fork := none }
  let input : TurnInput :=
    { happenings := [.signal .term [] true], reaped := refused, started := refused
      restarted := refused, stop := quiet, reload := quiet, reopen := quiet, noaccept := quiet }
  [input, { input with happenings := [.exit 100 0, .signal .chld [100] true] }]

theorem cycle_exit_shutdown :
    ∃ x, runSteps Cycle.step (Cycle.start fun _ => .success (3, 4) 100) shutdownInputs = .ok x ∧
      x.stopped = true ∧ ∀ pid, x.master.kids pid ≠ .running := by
  obtain ⟨x, hrun, hexit⟩ := cycle_exit (fun _ => .success (3, 4) 100) shutdownInputs
  have hstopped : (runSteps Cycle.step (Cycle.start fun _ => .success (3, 4) 100)
      shutdownInputs).map (fun x => x.stopped) = .ok true := by
    decide +kernel
  rw [hrun] at hstopped
  have hdone : x.stopped = true := Except.ok.inj hstopped
  exact ⟨x, hrun, hdone, hexit hdone⟩

end LinuxCodeDemos.Ngx

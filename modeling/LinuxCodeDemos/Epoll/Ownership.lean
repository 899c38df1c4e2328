/-
  LinuxCodeDemos.Epoll.Ownership

  The echo server never uses or frees a connection block that has been freed.

  The three handler slots of a descriptor point at blocks that were allocated for
  this descriptor and are still there (`Owned`).  A handler that frees its block
  closes the descriptor first, which clears the slots, and no other descriptor
  has the block in its slots.  So the invariant survives every handler on every
  outcome, and whatever the kernel reports.
-/

import LinuxCodeDemos.Epoll.EchoServer

namespace LinuxCodeDemos.Epoll

open Lib
open Function (update)

-- ============================================================================
-- Definitions
-- ============================================================================

/-- A slot of the entry points at the block. -/
def Fde.Holds {H D : Type} (F : Fde H D) (block : D) : Prop :=
  F.readData = some block ∨ F.writeData = some block ∨ F.timeoutData = some block

/-- The block was allocated for the descriptor and has not been freed. -/
def Owns (heap : Nat → Option ConnectStat) (fd block : Nat) : Prop :=
  ∃ stat, heap block = some stat ∧ stat.fd = fd

/-- Every slot points at a block of its descriptor. -/
def Owned (heap : Nat → Option ConnectStat) (c : Comm Handler Nat) : Prop :=
  ∀ fd block, (c.fdTable fd).Holds block → Owns heap fd block

/-- Slots are in order, and no block is there before it is allocated. -/
structure HeapInv (w : EchoWorld) : Prop where
  owned : Owned w.app.heap w.comm
  fresh : ∀ block, w.app.next ≤ block → w.app.heap block = none

/-- Two open descriptors with the same block. -/
def Shares (c : Comm Handler Nat) : Prop :=
  ∃ a b block, a ≠ b ∧ c.isOpen a = true ∧ c.isOpen b = true ∧ (c.fdTable a).Holds block ∧
    (c.fdTable b).Holds block

/-- The faults that a run may end in: nothing is used or freed after it was freed. -/
def Benign (t : Trap) : Prop := t ≠ .useAfterFree ∧ t ≠ .doubleFree

-- ============================================================================
-- The framework
-- ============================================================================

section Framework

variable {H D : Type}

@[simp] theorem fdTable_epollSetEvents (ok : Bool) (fd : Nat) (needRead needWrite : Bool)
    (c : Comm H D) : (epollSetEvents ok fd needRead needWrite c).fdTable = c.fdTable := by
  rw [epollSetEvents]
  split <;> rfl

/-- What an index check and a change of one entry leave. -/
theorem ends_of_checkFd {F : Trap → Prop} (hF : F .outOfBounds) {P : Comm H D → Prop} {fd : Nat}
    {c c' : Comm H D} (h : P c') : Ends P F (do checkFd fd c; .ok c') := by
  rw [checkFd]
  split
  · exact h
  · exact hF

theorem Fde.not_holds_zero (block : D) : ¬ (Fde.zero : Fde H D).Holds block := by
  rintro (h | h | h) <;> cases h

end Framework

section Slots

variable {heap : Nat → Option ConnectStat} {c : Comm Handler Nat}

/-- An entry may be changed to slots that point at blocks of its descriptor. -/
theorem Owned.setEntry (h : Owned heap c) {fd : Nat} {f : Fde Handler Nat → Fde Handler Nat}
    (hf : ∀ block, (f (c.fdTable fd)).Holds block → Owns heap fd block) :
    Owned heap (setEntry fd f c) := by
  intro k block hk
  have hk' : (update c.fdTable fd (f (c.fdTable fd)) k).Holds block := hk
  by_cases heq : k = fd
  · rw [heq, Function.update_self] at hk'
    rw [heq]
    exact hf block hk'
  · rw [Function.update_of_ne heq] at hk'
    exact h k block hk'

theorem Owned.of_fdTable {c' : Comm Handler Nat} (h : Owned heap c)
    (htable : c'.fdTable = c.fdTable) : Owned heap c' := by
  intro fd block hholds
  rw [htable] at hholds
  exact h fd block hholds

/-- The data that a handler passes on belongs to its descriptor. -/
def DataOwned (heap : Nat → Option ConnectStat) (fd : Nat) (data : Option Nat) : Prop :=
  ∀ block, data = some block → Owns heap fd block

variable {fd : Nat} {data : Option Nat}

theorem Owned.commUpdateReadHandler (h : Owned heap c) (hdata : DataOwned heap fd data) (ok : Bool)
    (handler : Option Handler) :
    Ends (Owned heap) Benign (commUpdateReadHandler ok fd handler data c) := by
  apply ends_of_checkFd ⟨by decide, by decide⟩
  refine Owned.of_fdTable (h.setEntry ?_) (fdTable_epollSetEvents ..)
  rintro block (hb | hb | hb)
  · exact hdata block hb
  · exact h fd block (.inr (.inl hb))
  · exact h fd block (.inr (.inr hb))

theorem Owned.commUpdateWriteHandler (h : Owned heap c) (hdata : DataOwned heap fd data)
    (ok : Bool) (handler : Option Handler) :
    Ends (Owned heap) Benign (commUpdateWriteHandler ok fd handler data c) := by
  apply ends_of_checkFd ⟨by decide, by decide⟩
  refine Owned.of_fdTable (h.setEntry ?_) (fdTable_epollSetEvents ..)
  rintro block (hb | hb | hb)
  · exact h fd block (.inl hb)
  · exact hdata block hb
  · exact h fd block (.inr (.inr hb))

theorem Owned.commSetTimeout (h : Owned heap c) (hdata : DataOwned heap fd data) (timeout : Int)
    (handler : Option Handler) :
    Ends (Owned heap) Benign (commSetTimeout fd timeout handler data c) := by
  unfold Epoll.commSetTimeout
  split
  · exact ⟨by decide, by decide⟩
  split
  · apply h.setEntry
    rintro block (hb | hb | hb)
    · exact h fd block (.inl hb)
    · exact h fd block (.inr (.inl hb))
    · cases hb
  split
  · exact ⟨by decide, by decide⟩
  apply h.setEntry
  intro block hb
  rw [Fde.arm] at hb
  split at hb
  · rcases hb with hb | hb | hb
    · exact h fd block (.inl hb)
    · exact h fd block (.inr (.inl hb))
    · exact hdata block hb
  · exact h fd block hb

/-- `comm_close` clears the slots. -/
theorem Owned.commClose (h : Owned heap c) (ok : Bool) (fd : Nat) :
    Ends (fun c' => Owned heap c' ∧ c'.fdTable fd = Fde.zero) Benign (commClose ok fd c) := by
  unfold Epoll.commClose
  by_cases hzero : fd = 0
  · rw [if_pos hzero]
    exact ⟨by decide, by decide⟩
  · rw [if_neg hzero]
    apply ends_of_checkFd ⟨by decide, by decide⟩
    have htable : (closeFd fd (epollSetEvents ok fd false false
        (Epoll.setEntry fd (fun _ => Fde.zero) c))).fdTable
        = (Epoll.setEntry fd (fun _ => Fde.zero) c).fdTable := fdTable_epollSetEvents ..
    refine ⟨?_, ?_⟩
    · refine Owned.of_fdTable (h.setEntry ?_) htable
      exact fun block hb => absurd hb (Fde.not_holds_zero block)
    · rw [htable]
      exact Function.update_self ..

end Slots

-- ============================================================================
-- Handlers
-- ============================================================================

section Handlers

variable {w : EchoWorld} {fd : Nat} {data : Option Nat} {i : Input Reply}

/-- A call into the framework keeps the heap. -/
theorem ends_onComm {P : Comm Handler Nat → Prop} {Q : EchoWorld → Prop}
    {f : Comm Handler Nat → Except Trap (Comm Handler Nat)} (h : Ends P Benign (f w.comm))
    (hPQ : ∀ comm, P comm → Q { w with comm }) : Ends Q Benign (onComm f w) :=
  h.bind fun comm hcomm => hPQ comm hcomm

theorem HeapInv.onComm (h : HeapInv w) {f : Comm Handler Nat → Except Trap (Comm Handler Nat)}
    (hf : Ends (Owned w.app.heap) Benign (f w.comm)) :
    Ends (fun w' => HeapInv w' ∧ w'.app = w.app) Benign (onComm f w) :=
  ends_onComm hf fun _ howned => ⟨⟨howned, h.fresh⟩, rfl⟩

/-- A block may be freed when the slots of its descriptor are clear. -/
theorem HeapInv.free (h : HeapInv w) (hdata : DataOwned w.app.heap fd data)
    (hclear : w.comm.fdTable fd = Fde.zero) : Ends HeapInv Benign (free data w) := by
  unfold Epoll.free
  cases data with
  | none => exact h
  | some block =>
      obtain ⟨stat, hstat, hfd⟩ := hdata block rfl
      simp only [hstat, Option.isNone_some, Bool.false_eq_true, if_false]
      refine ⟨?_, ?_⟩
      · -- a slot with this block would belong to the descriptor whose slots are clear
        intro k block' hk
        obtain ⟨stat', hstat', hk'⟩ := h.owned k block' hk
        have hne : block' ≠ block := by
          rintro rfl
          rw [hstat] at hstat'
          cases hstat'
          have hkfd : k = fd := hk'.symm.trans hfd
          rw [hkfd, hclear] at hk
          exact Fde.not_holds_zero _ hk
        exact ⟨stat', (Function.update_of_ne hne _ _).trans hstat', hk'⟩
      · intro block' hle
        have hnone := h.fresh block' hle
        have hne : block' ≠ block := by
          rintro rfl
          rw [hnone] at hstat
          cases hstat
        exact (Function.update_of_ne hne _ _).trans hnone

theorem HeapInv.closeAndFree (h : HeapInv w) (hdata : DataOwned w.app.heap fd data) :
    Ends HeapInv Benign (closeAndFree fd data i w) := by
  have hclose := h.owned.commClose i.ctl fd
  refine Ends.bind (ends_onComm (Q := fun w' => (HeapInv w' ∧ w'.app = w.app) ∧
    w'.comm.fdTable fd = Fde.zero) hclose fun comm hc => ⟨⟨⟨hc.1, h.fresh⟩, rfl⟩, hc.2⟩) ?_
  rintro w' ⟨⟨hinv, happ⟩, hclear⟩
  exact hinv.free (happ ▸ hdata) hclear

/-- Passing the block on and setting a timeout. -/
theorem HeapInv.twoCalls (h : HeapInv w)
    {f g : Comm Handler Nat → Except Trap (Comm Handler Nat)}
    (hf : ∀ c, Owned w.app.heap c → Ends (Owned w.app.heap) Benign (f c))
    (hg : ∀ c, Owned w.app.heap c → Ends (Owned w.app.heap) Benign (g c)) :
    Ends HeapInv Benign (do let w ← Epoll.onComm f w; Epoll.onComm g w) := by
  refine (h.onComm (hf w.comm h.owned)).bind ?_
  rintro w' ⟨hinv, happ⟩
  refine (hinv.onComm ?_).mono (fun w'' hw'' => hw''.1) (fun _ ht => ht)
  rw [happ]
  exact hg w'.comm (happ ▸ hinv.owned)

/-- A new block belongs to the descriptor it is made for. -/
theorem HeapInv.statInit (h : HeapInv w) (allocated : Bool) (newFd : Nat) :
    HeapInv { w with app := (statInit allocated newFd w.app).1 } ∧
      DataOwned (statInit allocated newFd w.app).1.heap newFd
        (statInit allocated newFd w.app).2 := by
  unfold Epoll.statInit
  split
  · refine ⟨⟨?_, ?_⟩, ?_⟩
    · intro k block hk
      obtain ⟨stat, hstat, hfd⟩ := h.owned k block hk
      have hne : block ≠ w.app.next := by
        rintro rfl
        rw [h.fresh _ (Nat.le_refl _)] at hstat
        cases hstat
      exact ⟨stat, (Function.update_of_ne hne _ _).trans hstat, hfd⟩
    · intro block hle
      have hlt : w.app.next + 1 ≤ block := hle
      have hne : block ≠ w.app.next := by omega
      exact (Function.update_of_ne hne _ _).trans (h.fresh block (by omega))
    · intro block hblock
      cases hblock
      exact ⟨_, Function.update_self .., rfl⟩
  · exact ⟨⟨h.owned, h.fresh⟩, fun block hblock => nomatch hblock⟩

theorem HeapInv.acceptConnection (h : HeapInv w) :
    Ends HeapInv Benign (acceptConnection i w) := by
  unfold Epoll.acceptConnection
  split
  · exact h
  next newFd _ =>
  have hopen : HeapInv { w with comm := { w.comm with
      isOpen := update w.comm.isOpen newFd true } } := ⟨h.owned, h.fresh⟩
  simp only
  split
  · obtain ⟨hinv, hdata⟩ := hopen.statInit i.reply.allocated newFd
    exact hinv.twoCalls (fun c hc => hc.commUpdateWriteHandler hdata i.ctl _)
      (fun c hc => hc.commSetTimeout hdata 30 _)
  · exact hopen

theorem HeapInv.doWelcomeHandler (h : HeapInv w) (hdata : DataOwned w.app.heap fd data) :
    Ends HeapInv Benign (doWelcomeHandler fd data i w) := by
  unfold Epoll.doWelcomeHandler
  have hinv : HeapInv { w with app := { w.app with
      written := (fd, welcome.take i.reply.sent.toNat) :: w.app.written } } := ⟨h.owned, h.fresh⟩
  split
  · exact hinv.twoCalls (fun c hc => hc.commUpdateReadHandler hdata i.ctl _)
      (fun c hc => hc.commSetTimeout hdata 10 _)
  · exact hinv

/-- Writing to the buffer of a block keeps its descriptor. -/
theorem HeapInv.setSendBuf (h : HeapInv w) (block : Nat) (f : List UInt8 → List UInt8) :
    HeapInv (setSendBuf block f w) ∧
      ∀ fd b, Owns w.app.heap fd b → Owns (setSendBuf block f w).app.heap fd b := by
  have howns : ∀ fd b, Owns w.app.heap fd b → Owns (Epoll.setSendBuf block f w).app.heap fd b := by
    rintro fd b ⟨stat, hstat, hfd⟩
    by_cases heq : b = block
    · refine ⟨{ stat with sendBuf := f stat.sendBuf }, ?_, hfd⟩
      show update w.app.heap block _ b = _
      rw [heq, Function.update_self, ← heq, hstat]
      rfl
    · exact ⟨stat, (Function.update_of_ne heq _ _).trans hstat, hfd⟩
  refine ⟨⟨fun k b hk => howns k b (h.owned k b hk), ?_⟩, howns⟩
  intro b hle
  have hnone := h.fresh b hle
  show update w.app.heap block _ b = none
  by_cases heq : b = block
  · rw [heq, Function.update_self, ← heq, hnone]
    rfl
  · rw [Function.update_of_ne heq]
    exact hnone

theorem HeapInv.doEchoHandler (h : HeapInv w) (hdata : DataOwned w.app.heap fd data) :
    Ends HeapInv Benign (doEchoHandler fd data i w) := by
  unfold Epoll.doEchoHandler
  split
  · exact ⟨by decide, by decide⟩
  next block =>
  have hbuf : ∀ f, HeapInv (Epoll.setSendBuf block f w) ∧
      DataOwned (Epoll.setSendBuf block f w).app.heap fd (some block) := by
    intro f
    obtain ⟨hinv, howns⟩ := h.setSendBuf block f
    exact ⟨hinv, fun b hb => howns fd b (hdata b hb)⟩
  split
  · exact (hbuf _).1
  next incoming _ =>
  simp only
  split
  · exact (hbuf _).1.closeAndFree (hbuf _).2
  obtain ⟨hinv, hown⟩ := hbuf fun buf => fillSendBuf buf (incoming.take (bufLen - 2 - 1))
  split
  · exact hinv.closeAndFree hown
  · exact hinv.twoCalls (fun c hc => hc.commUpdateWriteHandler hown i.ctl _)
      (fun c hc => hc.commSetTimeout hown 10 _)

theorem HeapInv.doEchoResponse (h : HeapInv w) (hdata : DataOwned w.app.heap fd data) :
    Ends HeapInv Benign (doEchoResponse fd data i w) := by
  unfold Epoll.doEchoResponse
  split
  · exact ⟨by decide, by decide⟩
  next block =>
  have hinv : ∀ text, HeapInv { w with app := { w.app with
      written := (fd, text) :: w.app.written } } := fun _ => ⟨h.owned, h.fresh⟩
  simp only
  split
  · exact (hinv _).twoCalls (fun c hc => hc.commSetTimeout hdata 10 _)
      (fun c hc => hc.commUpdateReadHandler hdata i.ctl _)
  split
  · exact (hinv _).closeAndFree hdata
  · exact hinv _

/-- A call with a block that is still there. -/
theorem DataOwned.callHandler_eq (hdata : DataOwned w.app.heap fd data) (handler : Handler) :
    callHandler handler fd data i w = runHandler handler fd data i w := by
  have hlive : (data.any fun block => (w.app.heap block).isNone) = false := by
    cases data with
    | none => rfl
    | some block =>
        obtain ⟨stat, hstat, _⟩ := hdata block rfl
        simp [hstat]
  unfold Epoll.callHandler
  rw [hlive, if_neg (by decide)]

theorem HeapInv.callHandler (h : HeapInv w) (hdata : DataOwned w.app.heap fd data)
    (handler : Handler) : Ends HeapInv Benign (callHandler handler fd data i w) := by
  rw [hdata.callHandler_eq]
  cases handler with
  | acceptConnection => exact h.acceptConnection
  | doWelcomeHandler => exact h.doWelcomeHandler hdata
  | doEchoHandler => exact h.doEchoHandler hdata
  | doEchoResponse => exact h.doEchoResponse hdata
  | doEchoTimeout => exact h.closeAndFree hdata

end Handlers

-- ============================================================================
-- Runs
-- ============================================================================

theorem HeapInv.checkTimeout {w : EchoWorld} (h : HeapInv w) (fd : Nat) (i : Input Reply) :
    Ends HeapInv Benign (checkTimeout Epoll.callHandler fd i w) := by
  unfold Epoll.checkTimeout
  simp only
  split
  · exact h
  split
  · exact h
  have hdata : DataOwned w.app.heap fd (w.comm.fdTable fd).timeoutData :=
    fun block hb => h.owned fd block (.inr (.inr hb))
  have hlog : Owned w.app.heap (logExpired fd w.comm) := h.owned
  split
  · have hslot : Owned w.app.heap (setEntry fd Fde.fired (logExpired fd w.comm)) :=
      hlog.setEntry fun block hb => h.owned fd block hb
    have hinv : HeapInv { w with comm := setEntry fd Fde.fired (logExpired fd w.comm) } :=
      ⟨hslot, h.fresh⟩
    exact hinv.callHandler hdata _
  · exact (hlog.commClose i.ctl fd).bind fun comm hcomm => ⟨hcomm.1, h.fresh⟩

/-- One step of the loop. -/
theorem loopStep_heapInv {m : EchoLoop} (h : HeapInv m.world) (i : Input Reply) :
    Ends (fun m' => HeapInv m'.world) Benign (loopStep callHandler m i) := by
  have htick : HeapInv (m.world.tick i) := ⟨h.owned, h.fresh⟩
  unfold loopStep
  simp only
  split
  · exact htick
  · next fd _ =>
      split
      · refine Ends.bind (htick.checkTimeout fd i) fun w hw => ?_
        exact hw
      · exact htick
  · split
    · exact ⟨htick.owned, htick.fresh⟩
    · exact htick
  · exact htick
  · next event batch _ =>
      refine Ends.bind (callReadHandler_ends htick fun hdl _ _ => ?_) fun w hw => hw
      exact htick.callHandler (fun block hb => htick.owned _ block (.inl hb)) hdl
  · next event batch _ =>
      refine Ends.bind (callWriteHandler_ends htick fun hdl _ _ => ?_) fun w hw => hw
      exact htick.callHandler (fun block hb => htick.owned _ block (.inr (.inl hb))) hdl
  · exact ⟨htick.owned, htick.fresh⟩

theorem echoStart_heapInv (listenSock : Nat) (isOpen : Nat → Bool) (i : Input Reply) :
    Ends (fun m => HeapInv m.world) Benign (echoStart listenSock isOpen i) := by
  have hempty : HeapInv { comm := commInit 102400 (update isOpen listenSock true) i.clock
                          app := { heap := fun _ => none, next := 0, written := [] } } :=
    ⟨fun fd block hb => absurd hb (Fde.not_holds_zero block), fun _ _ => rfl⟩
  obtain ⟨hinv, hdata⟩ := hempty.statInit i.reply.allocated listenSock
  unfold echoStart
  exact (hinv.onComm (hinv.owned.commUpdateReadHandler hdata i.ctl _)).bind fun w hw => hw.1

/-- Blocks are not shared while the slots are in order. -/
theorem HeapInv.not_shares {w : EchoWorld} (h : HeapInv w) : ¬ Shares w.comm := by
  rintro ⟨a, b, block, hne, _, _, ha, hb⟩
  obtain ⟨stat, hstat, hfda⟩ := h.owned a block ha
  obtain ⟨stat', hstat', hfdb⟩ := h.owned b block hb
  rw [hstat] at hstat'
  cases hstat'
  exact hne (hfda.symm.trans hfdb)

/-- In every run of the server, with any events, results, timeouts and descriptor
    numbers, no handler is called with a block that has been freed and no block is
    freed twice, and in every state that is reached no two open descriptors share a
    block. -/
theorem echoServer_no_use_after_free (listenSock : Nat) (isOpen : Nat → Bool)
    (start : Input Reply) (inputs : List (Input Reply)) :
    echoRun listenSock isOpen start inputs ≠ .error .useAfterFree ∧
    echoRun listenSock isOpen start inputs ≠ .error .doubleFree ∧
    ∀ m, echoRun listenSock isOpen start inputs = .ok m → ¬ Shares m.world.comm := by
  have hrun : Ends (fun m => HeapInv m.world) Benign
      (echoRun listenSock isOpen start inputs) := by
    refine (echoStart_heapInv listenSock isOpen start).bind fun m hm => ?_
    exact runSteps_keeps (fun s i hs => loopStep_heapInv hs i) hm inputs
  refine ⟨fun h => (hrun.of_error h).1 rfl, fun h => (hrun.of_error h).2 rfl, fun m hm => ?_⟩
  exact (hrun.of_ok hm).not_shares

end LinuxCodeDemos.Epoll

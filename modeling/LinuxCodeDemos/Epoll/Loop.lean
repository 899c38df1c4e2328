/-
  LinuxCodeDemos.Epoll.Loop

  The event loop of `epoll_framework`: `comm_select` over and over, cut into
  steps so that every state between two handler calls is a state of the run.

  - `Control` is the place in `comm_select`: the scan of `checkTimeouts` entry by
    entry, `epoll_wait`, the events of a batch, first the read and then the write
    handler, and the final `getCurrentTime`.
  - An input is what the world does during a step: the time that passes, what
    `epoll_wait` reports, whether the once-per-second gate of `checkTimeouts` is
    open, and the results of the system calls of a handler.  The gate compares
    floating point times and is a free choice here.
  - Events are not restricted to what the kernel would report.
-/

import LinuxCodeDemos.Epoll.Comm

namespace LinuxCodeDemos.Epoll

/-- The framework and the state of the application. -/
structure World (H D A : Type) where
  comm : Comm H D
  app : A

/-- An event of `epoll_wait`: `data.fd` and `events`. -/
structure EpollEvent where
  fd : Nat
  events : UInt32
  deriving DecidableEq, Repr

/-- What the world does during a step. -/
structure Input (R : Type) where
  clock : Int
  gate : Bool
  /-- The events of `epoll_wait`, `none` if it fails. -/
  wait : Option (List EpollEvent)
  /-- The `epoll_ctl` calls of the step succeed. -/
  ctl : Bool
  /-- The results of the other system calls. -/
  reply : R

/-- The place in `comm_select`. -/
inductive Control where
  | select
  | timeouts (fd : Nat)
  | wait
  | read (batch : List EpollEvent)
  | write (event : EpollEvent) (batch : List EpollEvent)
  | refresh
  deriving DecidableEq, Repr

structure Loop (H D A : Type) where
  world : World H D A
  control : Control

/-- What calling a handler does. -/
abbrev Call (H D A R : Type) := H → Nat → Option D → Input R → World H D A → Except Trap (World H D A)

variable {H D A R : Type} (call : Call H D A R)

/-- Time passes. -/
def World.tick (i : Input R) (w : World H D A) : World H D A :=
  { w with comm := { w.comm with clock := i.clock } }

/-- The entry while its timeout handler is called. -/
def Fde.fired (F : Fde H D) : Fde H D := { F with timeoutHandler := none }

/-- The timeout of a descriptor has expired. -/
def logExpired (fd : Nat) (c : Comm H D) : Comm H D :=
  { c with log := .expired fd c.clock :: c.log }

/-- The body of `checkTimeouts` for one entry. -/
def checkTimeout (fd : Nat) (i : Input R) (w : World H D A) : Except Trap (World H D A) :=
  let F := w.comm.fdTable fd
  if F.timeout = 0 then .ok w
  else if w.comm.sysCurtime < F.timeout then .ok w
  else
    let comm := logExpired fd w.comm
    match F.timeoutHandler with
    | some callback => call callback fd F.timeoutData i { w with comm := setEntry fd Fde.fired comm }
    | none => do
        let comm ← commClose i.ctl fd comm
        .ok { w with comm }

/-- The first half of `comm_call_handlers`. -/
def callReadHandler (fd : Nat) (readEvent : UInt32) (i : Input R) (w : World H D A) :
    Except Trap (World H D A) :=
  match (w.comm.fdTable fd).readHandler with
  | some hdl =>
      if readEvent ≠ 0 then call hdl fd (w.comm.fdTable fd).readData i w else .ok w
  | none => .ok w

/-- The second half; the entry is looked at again. -/
def callWriteHandler (fd : Nat) (writeEvent : UInt32) (i : Input R) (w : World H D A) :
    Except Trap (World H D A) :=
  match (w.comm.fdTable fd).writeHandler with
  | some hdl =>
      if writeEvent ≠ 0 then call hdl fd (w.comm.fdTable fd).writeData i w else .ok w
  | none => .ok w

section Rules

variable {call} {P : World H D A → Prop} {F : Trap → Prop} {w : World H D A} {fd : Nat}
  {event : UInt32} {i : Input R}

/-- What holds before and after the read handler, if it is called. -/
theorem callReadHandler_ends (h : P w)
    (hcall : ∀ hdl, (w.comm.fdTable fd).readHandler = some hdl → event ≠ 0 →
      Lib.Ends P F (call hdl fd (w.comm.fdTable fd).readData i w)) :
    Lib.Ends P F (callReadHandler call fd event i w) := by
  unfold callReadHandler
  split
  · next hdl hhdl =>
      split
      · next hevent => exact hcall hdl hhdl hevent
      · exact h
  · exact h

/-- What holds before and after the write handler, if it is called. -/
theorem callWriteHandler_ends (h : P w)
    (hcall : ∀ hdl, (w.comm.fdTable fd).writeHandler = some hdl → event ≠ 0 →
      Lib.Ends P F (call hdl fd (w.comm.fdTable fd).writeData i w)) :
    Lib.Ends P F (callWriteHandler call fd event i w) := by
  unfold callWriteHandler
  split
  · next hdl hhdl =>
      split
      · next hevent => exact hcall hdl hhdl hevent
      · exact h
  · exact h

end Rules

/-- One step of the loop. -/
def loopStep (m : Loop H D A) (i : Input R) : Except Trap (Loop H D A) :=
  let w := m.world.tick i
  match m.control with
  | .select => .ok { world := w, control := if i.gate then .timeouts 0 else .wait }
  | .timeouts fd =>
      if fd ≤ w.comm.biggestFd then do
        let w ← checkTimeout call fd i w
        .ok { world := w, control := .timeouts (fd + 1) }
      else .ok { world := w, control := .wait }
  | .wait =>
      match i.wait with
      | none => .ok { world := { w with comm := getCurrentTime w.comm }, control := .refresh }
      | some batch => .ok { world := w, control := .read batch }
  | .read [] => .ok { world := w, control := .refresh }
  | .read (event :: batch) => do
      let w ← callReadHandler call event.fd (event.events &&& ~~~epollOut) i w
      .ok { world := w, control := .write event batch }
  | .write event batch => do
      let w ← callWriteHandler call event.fd (event.events &&& ~~~epollIn) i w
      .ok { world := w, control := .read batch }
  | .refresh =>
      .ok { world := { w with comm := getCurrentTime w.comm }, control := .select }

/-- Another state of the application. -/
def World.mapApp {B : Type} (f : A → B) (w : World H D A) : World H D B :=
  { comm := w.comm, app := f w.app }

def Loop.mapApp {B : Type} (f : A → B) (m : Loop H D A) : Loop H D B :=
  { world := m.world.mapApp f, control := m.control }

section MapApp

variable {B : Type} {f : A → B} {call : Call H D A R} {call' : Call H D B R}
  (hcall : ∀ hdl fd data i w, (call hdl fd data i w).map (World.mapApp f)
    = call' hdl fd data i (w.mapApp f))

include hcall

theorem checkTimeout_mapApp (fd : Nat) (i : Input R) (w : World H D A) :
    (checkTimeout call fd i w).map (World.mapApp f) = checkTimeout call' fd i (w.mapApp f) := by
  rw [checkTimeout, checkTimeout, show (w.mapApp f).comm = w.comm from rfl]
  dsimp only
  by_cases hzero : (w.comm.fdTable fd).timeout = 0
  · rw [if_pos hzero, if_pos hzero]
    rfl
  rw [if_neg hzero, if_neg hzero]
  by_cases hlt : w.comm.sysCurtime < (w.comm.fdTable fd).timeout
  · rw [if_pos hlt, if_pos hlt]
    rfl
  rw [if_neg hlt, if_neg hlt]
  cases (w.comm.fdTable fd).timeoutHandler with
  | some callback => exact hcall callback fd _ i _
  | none =>
      dsimp only
      cases commClose i.ctl fd (logExpired fd w.comm) with
      | error e => rfl
      | ok comm => rfl

theorem callReadHandler_mapApp (fd : Nat) (event : UInt32) (i : Input R) (w : World H D A) :
    (callReadHandler call fd event i w).map (World.mapApp f)
      = callReadHandler call' fd event i (w.mapApp f) := by
  simp only [callReadHandler, World.mapApp]
  cases (w.comm.fdTable fd).readHandler with
  | none => rfl
  | some hdl =>
      dsimp only
      by_cases hevent : event ≠ 0
      · rw [if_pos hevent, if_pos hevent]
        exact hcall hdl fd _ i w
      · rw [if_neg hevent, if_neg hevent]
        rfl

theorem callWriteHandler_mapApp (fd : Nat) (event : UInt32) (i : Input R) (w : World H D A) :
    (callWriteHandler call fd event i w).map (World.mapApp f)
      = callWriteHandler call' fd event i (w.mapApp f) := by
  simp only [callWriteHandler, World.mapApp]
  cases (w.comm.fdTable fd).writeHandler with
  | none => rfl
  | some hdl =>
      dsimp only
      by_cases hevent : event ≠ 0
      · rw [if_pos hevent, if_pos hevent]
        exact hcall hdl fd _ i w
      · rw [if_neg hevent, if_neg hevent]
        rfl

/-- Handlers that do the same to the framework and to what `f` shows of the application make the
    same steps. -/
theorem loopStep_mapApp (m : Loop H D A) (i : Input R) :
    (loopStep call m i).map (Loop.mapApp f) = loopStep call' (m.mapApp f) i := by
  have hbind : ∀ (x : Except Trap (World H D A)) (control : Control),
      (x >>= fun w => Except.ok (Loop.mk w control)).map (Loop.mapApp f)
        = x.map (World.mapApp f) >>= fun w => Except.ok (Loop.mk w control) := by
    intro x control
    cases x <;> rfl
  rcases m with ⟨w, control⟩
  rcases control with _ | fd | _ | ⟨_ | ⟨event, batch⟩⟩ | ⟨event, batch⟩ | _
  case timeouts =>
    by_cases hle : fd ≤ w.comm.biggestFd
    · have hleft : loopStep call ⟨w, .timeouts fd⟩ i
          = checkTimeout call fd i (w.tick i) >>= fun w => .ok ⟨w, .timeouts (fd + 1)⟩ := if_pos hle
      have hright : loopStep call' ⟨w.mapApp f, .timeouts fd⟩ i
          = checkTimeout call' fd i ((w.tick i).mapApp f) >>= fun w => .ok ⟨w, .timeouts (fd + 1)⟩ :=
        if_pos hle
      rw [hleft, hbind, checkTimeout_mapApp hcall]
      exact hright.symm
    · have hleft : loopStep call ⟨w, .timeouts fd⟩ i = .ok ⟨w.tick i, .wait⟩ := if_neg hle
      have hright : loopStep call' ⟨w.mapApp f, .timeouts fd⟩ i = .ok ⟨(w.tick i).mapApp f, .wait⟩ :=
        if_neg hle
      rw [hleft]
      exact hright.symm
  case wait =>
    rw [loopStep, loopStep]
    dsimp only [Loop.mapApp]
    cases i.wait <;> rfl
  case read.cons =>
    refine (hbind _ _).trans ?_
    rw [callReadHandler_mapApp hcall]
    rfl
  case write =>
    refine (hbind _ _).trans ?_
    rw [callWriteHandler_mapApp hcall]
    rfl
  all_goals rfl

end MapApp

end LinuxCodeDemos.Epoll

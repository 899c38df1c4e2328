/-
  LinuxCodeDemos.Epoll.Greeting

  The greeting of the echo server.

  `do_welcome_handler` writes "Welcome.\n" from its beginning whenever it is called, and it stays
  the write handler of the connection until a chunk has been read.  So it greets again after a
  short write, and on an error or hang-up event that brings no chunk.  The greeting is sent at
  most once on every connection exactly if no call takes bytes after an earlier call did
  (`greetedOnce_iff`).  Replies never come before it: once a chunk has been read the handler is
  gone for good.
-/

import LinuxCodeDemos.Epoll.Watch

namespace LinuxCodeDemos.Epoll

open Lib
open Function (update)

-- ============================================================================
-- Definitions
-- ============================================================================

def Piece.greetingBytes : Piece → List UInt8
  | .greeting bytes => bytes
  | _ => []

def Piece.echoBytes : Piece → List UInt8
  | .echo bytes _ => bytes
  | _ => []

/-- The greeting bytes of a connection in the order of their writes. -/
def greetingBytes (history : List Piece) : List UInt8 :=
  history.reverse.flatMap Piece.greetingBytes

/-- The bytes of the replies in the order of their writes. -/
def echoBytes (history : List Piece) : List UInt8 := history.reverse.flatMap Piece.echoBytes

/-- No greeting byte follows an echoed byte. -/
def GreetingFirst : List Piece → Prop
  | [] => True
  | piece :: history =>
      (piece.greetingBytes ≠ [] → echoBytes history = []) ∧ GreetingFirst history

/-- On every connection the greeting bytes are a beginning of "Welcome.\n", and none follows an
    echoed byte. -/
def GreetedOnce (m : WatchLoop) : Prop :=
  ∀ fd, greetingBytes (m.world.app.history fd) <+: welcome ∧ GreetingFirst (m.world.app.history fd)

/-- If the step calls `do_welcome_handler` and `write` takes something, nothing of the greeting has
    been written on this connection before. -/
def GreetsAfresh (m : WatchLoop) (i : Input Reply) : Prop :=
  match m.control with
  | .write event _ =>
      (m.world.comm.fdTable event.fd).writeHandler = some .doWelcomeHandler →
        event.events &&& ~~~epollIn ≠ 0 → 0 < i.reply.sent →
          greetingBytes (m.world.app.history event.fd) = []
  | _ => True

instance (m : WatchLoop) (i : Input Reply) : Decidable (GreetsAfresh m i) :=
  match h : m.control with
  | .write event _ =>
      decidable_of_iff
        ((m.world.comm.fdTable event.fd).writeHandler = some .doWelcomeHandler →
          event.events &&& ~~~epollIn ≠ 0 → 0 < i.reply.sent →
            greetingBytes (m.world.app.history event.fd) = [])
        (by rw [GreetsAfresh, h])
  | .select | .timeouts _ | .wait | .read _ | .refresh => .isTrue (by rw [GreetsAfresh, h]; trivial)

/-- The invariant of the records: one call has taken greeting bytes, and no reply is written while
    `do_welcome_handler` is the write handler. -/
structure GreetInv (c : Comm Handler Nat) (history : Nat → List Piece) : Prop where
  taken : ∀ fd, ∃ n, greetingBytes (history fd) = welcome.take n
  first : ∀ fd, GreetingFirst (history fd)
  quiet : ∀ fd, (c.fdTable fd).writeHandler = some .doWelcomeHandler → echoBytes (history fd) = []

-- ============================================================================
-- Records
-- ============================================================================

@[simp] theorem greetingBytes_nil : greetingBytes [] = [] := rfl

@[simp] theorem greetingBytes_cons (piece : Piece) (history : List Piece) :
    greetingBytes (piece :: history) = greetingBytes history ++ piece.greetingBytes := by
  simp [greetingBytes]

@[simp] theorem echoBytes_nil : echoBytes [] = [] := rfl

@[simp] theorem echoBytes_cons (piece : Piece) (history : List Piece) :
    echoBytes (piece :: history) = echoBytes history ++ piece.echoBytes := by
  simp [echoBytes]

/-- The first letter of the greeting occurs once. -/
theorem welcome_first {n : Nat} (h : welcome[n]? = some 87) : n = 0 := by
  by_contra hne
  have hlt : n < welcome.length := (List.getElem?_eq_some_iff.mp h).1
  have hall : ∀ k < welcome.length, k ≠ 0 → welcome[k]? ≠ some 87 := by decide
  exact hall n hlt hne h

/-- A greeting behind another one is not the greeting. -/
theorem not_prefix_welcome {bytes : List UInt8} {n : Nat} (hbytes : bytes ≠ []) (hn : 0 < n) :
    ¬ bytes ++ welcome.take n <+: welcome := by
  rintro ⟨rest, hrest⟩
  obtain ⟨k, rfl⟩ : ∃ k, n = k + 1 := ⟨n - 1, by omega⟩
  have hletter : welcome[bytes.length]? = some 87 := by
    rw [← hrest, List.append_assoc, List.getElem?_append_right (Nat.le_refl _), Nat.sub_self]
    rfl
  exact hbytes (List.eq_nil_of_length_eq_zero (welcome_first hletter))

section Records

variable {c c' : Comm Handler Nat} {history : Nat → List Piece} {fd : Nat}

/-- The write handlers matter only. -/
theorem GreetInv.of_writeHandler (h : GreetInv c history)
    (hwrite : ∀ fd, (c'.fdTable fd).writeHandler = (c.fdTable fd).writeHandler) :
    GreetInv c' history := by
  refine ⟨h.taken, h.first, ?_⟩
  intro fd hfd
  rw [hwrite] at hfd
  exact h.quiet fd hfd

theorem GreetInv.sets (h : GreetInv c history) {F : Fde Handler Nat} {events : UInt32}
    (hsets : Sets fd F events c c')
    (hF : F.writeHandler = some .doWelcomeHandler → echoBytes (history fd) = []) :
    GreetInv c' history := by
  refine ⟨h.taken, h.first, ?_⟩
  intro k hk
  rw [hsets.fdTable] at hk
  by_cases hkfd : k = fd
  · rw [hkfd] at hk ⊢
    rw [Function.update_self] at hk
    exact hF hk
  · rw [Function.update_of_ne hkfd] at hk
    exact h.quiet k hk

/-- The record of one connection changes. -/
theorem GreetInv.update (h : GreetInv c history) {pieces : List Piece}
    (htaken : ∃ n, greetingBytes pieces = welcome.take n) (hfirst : GreetingFirst pieces)
    (hquiet : (c.fdTable fd).writeHandler = some .doWelcomeHandler → echoBytes pieces = []) :
    GreetInv c (update history fd pieces) := by
  refine ⟨?_, ?_, ?_⟩
  · exact (Function.forall_update_iff history
      fun _ pieces => ∃ n, greetingBytes pieces = welcome.take n).mpr ⟨htaken, fun k _ => h.taken k⟩
  · exact (Function.forall_update_iff history fun _ pieces => GreetingFirst pieces).mpr
      ⟨hfirst, fun k _ => h.first k⟩
  · intro k hk
    by_cases hkfd : k = fd
    · rw [hkfd] at hk ⊢
      rw [Function.update_self]
      exact hquiet hk
    · rw [Function.update_of_ne hkfd]
      exact h.quiet k hk

theorem GreetInv.fresh (h : GreetInv c history) (fd : Nat) :
    GreetInv c (Function.update history fd []) :=
  h.update ⟨0, rfl⟩ trivial fun _ => rfl

theorem GreetInv.greeting (h : GreetInv c history) (hquiet : echoBytes (history fd) = []) {sent : Int}
    (hafresh : 0 < sent → greetingBytes (history fd) = []) :
    GreetInv c (Function.update history fd (.greeting (welcome.take sent.toNat) :: history fd)) := by
  refine h.update ?_ ⟨fun _ => hquiet, h.first fd⟩ fun _ => ?_
  · rw [greetingBytes_cons]
    by_cases hsent : 0 < sent
    · rw [hafresh hsent]
      exact ⟨sent.toNat, rfl⟩
    · obtain ⟨n, hn⟩ := h.taken fd
      refine ⟨n, ?_⟩
      rw [hn, Int.toNat_of_nonpos (by omega)]
      exact List.append_nil _
  · rw [echoBytes_cons, hquiet]
    rfl

theorem GreetInv.read (h : GreetInv c history) (fd : Nat) (chunk : Option (List UInt8)) :
    GreetInv c (Function.update history fd (.read chunk :: history fd)) := by
  obtain ⟨n, hn⟩ := h.taken fd
  refine h.update ⟨n, ?_⟩ ⟨fun hne => absurd rfl hne, h.first fd⟩ fun hwrite => ?_
  · rw [greetingBytes_cons, hn]
    exact List.append_nil _
  · rw [echoBytes_cons, h.quiet fd hwrite]
    rfl

theorem GreetInv.echo (h : GreetInv c history)
    (hwrite : (c.fdTable fd).writeHandler ≠ some .doWelcomeHandler) (bytes : List UInt8) (sent : Int) :
    GreetInv c (Function.update history fd (.echo bytes sent :: history fd)) := by
  obtain ⟨n, hn⟩ := h.taken fd
  refine h.update ⟨n, ?_⟩ ⟨fun hne => absurd rfl hne, h.first fd⟩ fun hwelcome => absurd hwelcome hwrite
  rw [greetingBytes_cons, hn]
  exact List.append_nil _

end Records

-- ============================================================================
-- Steps
-- ============================================================================

section Steps

variable {m m' : WatchLoop} {i : Input Reply} {fd : Nat} {data : Option Nat}

/-- A call keeps the invariant if it is no second greeting. -/
theorem GreetInv.call {handler : Handler} {w w' : WatchWorld}
    (h : GreetInv w.comm w.app.history)
    (hwelcome : handler = .doWelcomeHandler →
      (w.comm.fdTable fd).writeHandler = some .doWelcomeHandler ∧
        (0 < i.reply.sent → greetingBytes (w.app.history fd) = []))
    (hecho : handler = .doEchoResponse →
      (w.comm.fdTable fd).writeHandler = some .doEchoResponse)
    (hcall : watchHandler handler fd data i w = .ok w') : GreetInv w'.comm w'.app.history := by
  obtain ⟨v, hv, rfl⟩ := watchHandler_ok hcall
  have heffect := (callHandler_effect handler fd data i _).of_ok hv
  have hreply : handler = .doEchoResponse →
      (w.comm.fdTable fd).writeHandler ≠ some .doWelcomeHandler := by
    intro hhandler heq
    rw [hecho hhandler] at heq
    cases heq
  cases heffect with
  | nobody haccept =>
      dsimp only [note]
      rw [show acceptFd i.reply.accepted w.comm = none from haccept]
      exact h
  | zero haccept =>
      dsimp only [note]
      rw [show acceptFd i.reply.accepted w.comm = some 0 from haccept]
      exact (h.fresh 0).of_writeHandler fun _ => rfl
  | joined newFd haccept n comm hsets =>
      dsimp only [note]
      rw [show acceptFd i.reply.accepted w.comm = some newFd from haccept]
      refine (h.fresh newFd).sets hsets fun _ => ?_
      rw [Function.update_self]
      rfl
  | greeted _ n comm hsets =>
      obtain ⟨hwrite, hafresh⟩ := hwelcome rfl
      rw [writtenSince_cons rfl]
      have hnew := h.greeting (h.quiet fd hwrite) hafresh
      exact hnew.sets hsets (hnew.quiet fd)
  | interrupted =>
      obtain ⟨hwrite, hafresh⟩ := hwelcome rfl
      rw [writtenSince_cons rfl]
      exact h.greeting (h.quiet fd hwrite) hafresh
  | unread => exact h.read fd _
  | closed block _ _ f w' hup => exact GreetInv.sets (c := w.comm) (h.read fd _) hup.sets nofun
  | received block _ chunk _ n comm hsets => exact (h.read fd _).sets hsets nofun
  | answered block _ _ n comm hsets =>
      exact (h.echo (hreply rfl) _ _).sets hsets fun hwrite => absurd hwrite (hreply rfl)
  | cut block _ _ w' hup =>
      exact GreetInv.sets (c := w.comm) (h.echo (hreply rfl) _ _) hup.sets nofun
  | refused => exact h.echo (hreply rfl) _ _
  | timedOut w' hup => exact h.sets hup.sets nofun

/-- A step keeps the invariant if it is no second greeting. -/
theorem GreetInv.step (h : GreetInv m.world.comm m.world.app.history) (hserver : ServerInv m.world)
    (hafresh : GreetsAfresh m i) (hstep : loopStep watchHandler m i = .ok m') :
    GreetInv m'.world.comm m'.world.app.history := by
  have htick : GreetInv (m.world.tick i).comm (m.world.tick i).app.history :=
    h.of_writeHandler fun _ => rfl
  cases loopStep_step hstep with
  | idle hidle | unready _ _ _ _ _ hidle =>
      rw [hidle.app]
      refine h.of_writeHandler fun k => ?_
      rw [hidle.fdTable]
  | read event batch _ _ handler hhandler _ hcall =>
      refine htick.call ?_ ?_ hcall
      · rintro rfl
        rcases (hserver.roles.role _).read _ hhandler with heq | heq <;> cases heq
      · rintro rfl
        rcases (hserver.roles.role _).read _ hhandler with heq | heq <;> cases heq
  | write event batch hbefore _ handler hhandler hevent hcall =>
      rw [GreetsAfresh, hbefore] at hafresh
      refine htick.call ?_ ?_ hcall
      · rintro rfl
        exact ⟨hhandler, hafresh hhandler hevent⟩
      · rintro rfl
        exact hhandler
  | timeout fd _ handler hhandler hcall =>
      obtain rfl := (hserver.roles.role fd).timeout _ hhandler
      have hfired : GreetInv (setEntry fd Fde.fired (logExpired fd (m.world.tick i).comm))
          (m.world.tick i).app.history := by
        refine htick.of_writeHandler fun k => ?_
        show (Function.update m.world.comm.fdTable fd _ k).writeHandler = _
        by_cases hk : k = fd
        · rw [hk, Function.update_self]
          rfl
        · rw [Function.update_of_ne hk]
          rfl
      refine GreetInv.call (w := { m.world.tick i with comm := _ }) hfired ?_ ?_ hcall
      · rintro ⟨⟩
      · rintro ⟨⟩
  | expired fd _ hsets happ =>
      rw [happ]
      exact h.sets hsets nofun

/-- A second greeting is seen at once. -/
theorem ServerInv.greets_again (hserver : ServerInv m.world) (hno : ¬ GreetsAfresh m i) :
    ∃ m', loopStep watchHandler m i = .ok m' ∧ ¬ GreetedOnce m' := by
  rw [GreetsAfresh] at hno
  split at hno
  next event batch hcontrol =>
    simp only [Classical.not_imp] at hno
    obtain ⟨hwrite, hevent, hsent, hbefore⟩ := hno
    have hdata : DataOwned m.world.app.app.heap event.fd (m.world.comm.fdTable event.fd).writeData :=
      fun block hblock => hserver.heap.owned event.fd block (.inr (.inl hblock))
    have hlt : event.fd < m.world.comm.biggestFd :=
      hserver.roles.lt event.fd (by rw [hwrite]; rfl)
    -- the call returns, and its bytes are behind others of the greeting
    have heffect := doWelcomeHandler_effect event.fd (m.world.comm.fdTable event.fd).writeData i
      ((m.world.tick i).mapApp Watched.app)
    obtain ⟨v, hv, heffect⟩ := (heffect.mono (fun _ h => h) fun _ hle =>
      absurd hlt (Nat.not_lt.mpr hle)).exists_ok
    have hcall : watchHandler .doWelcomeHandler event.fd (m.world.comm.fdTable event.fd).writeData i
        (m.world.tick i) = .ok ⟨v.comm, v.app, note .doWelcomeHandler event.fd i m.world.comm
          (writtenSince m.world.app.app v.app) m.world.app.history⟩ := by
      rw [watchHandler, DataOwned.callHandler_eq hdata]
      exact congrArg (· >>= _) hv
    have hwritten : writtenSince m.world.app.app v.app = welcome.take i.reply.sent.toNat := by
      cases heffect <;> exact writtenSince_cons rfl
    refine ⟨_, loopStep_write hcontrol hwrite hevent hcall, fun honce => ?_⟩
    have hprefix := (honce event.fd).1
    rw [hwritten] at hprefix
    dsimp only [note] at hprefix
    rw [Function.update_self, greetingBytes_cons] at hprefix
    exact not_prefix_welcome hbefore (by omega) hprefix
  · exact absurd trivial hno

end Steps

-- ============================================================================
-- Runs
-- ============================================================================

/-- Along a run of the server the greeting is sent at most once on every connection, and before all
    replies, exactly if `do_welcome_handler` never writes a byte on a connection on which it has
    written one before. -/
theorem greetedOnce_iff {listenSock : Nat} {isOpen : Nat → Bool} {start : Input Reply} {m : WatchLoop}
    (hstart : watchStart listenSock isOpen start = .ok m) (inputs : List (Input Reply)) :
    EveryState (loopStep watchHandler) GreetedOnce m inputs ↔
      AlongRun (loopStep watchHandler) GreetsAfresh m inputs := by
  obtain ⟨hserver, hempty, -, -⟩ := watchStart_serverInv hstart
  have hgreet : GreetInv m.world.comm m.world.app.history := by
    refine ⟨?_, ?_, ?_⟩
    · intro fd
      rw [hempty]
      exact ⟨0, rfl⟩
    · intro fd
      rw [hempty]
      trivial
    · intro fd _
      rw [hempty]
      rfl
  have honce : ∀ m : WatchLoop, ServerInv m.world ∧ GreetInv m.world.comm m.world.app.history →
      GreetedOnce m := by
    rintro m ⟨-, hgreet⟩ fd
    obtain ⟨n, hn⟩ := hgreet.taken fd
    refine ⟨?_, hgreet.first fd⟩
    rw [hn]
    exact List.take_prefix n welcome
  refine everyState_iff honce ?_ ?_ ⟨hserver, hgreet⟩ inputs
  · rintro m i m' ⟨hserver, hgreet⟩ hafresh hstep
    exact ⟨hserver.step hstep, hgreet.step hserver hafresh hstep⟩
  · rintro m i ⟨hserver, -⟩ hno
    exact hserver.greets_again hno

/-- One turn of the loop with one event. -/
def turn (fd : Nat) (events : UInt32) (reply : Reply) : List (Input Reply) :=
  List.replicate 6 { clock := 0, gate := false, wait := some [{ fd, events }], ctl := true, reply }

/-- A connection comes in on descriptor 5. -/
def connecting : Reply := { accepted := some 5, allocated := true, incoming := none, sent := 0 }

/-- The results of the `write` calls of the greeting, one event each. -/
def greetingRun (results : List Int) : List (Input Reply) :=
  turn 3 epollIn connecting ++ results.flatMap fun sent => turn 5 epollOut { connecting with sent }

/-- The server listens on descriptor 3. -/
def listening : Input Reply :=
  { clock := 0, gate := false, wait := none, ctl := true, reply := connecting }

theorem greetedOnce_oneWrite :
    ∃ m, watchStart 3 (fun fd => fd < 3) listening = .ok m ∧
      EveryState (loopStep watchHandler) GreetedOnce m (greetingRun [9]) := by
  refine ⟨_, rfl, (@greetedOnce_iff 3 _ _ _ rfl (greetingRun [9])).mpr ?_⟩
  decide +kernel

/-- `write` takes four bytes of the greeting, and at the next event nine: the client gets
    "WelcWelcome.\n". -/
theorem not_greetedOnce_shortWrite :
    ∃ m, watchStart 3 (fun fd => fd < 3) listening = .ok m ∧
      AlongRun (loopStep watchHandler) (fun m _ => Allowed m) m (greetingRun [4, 9]) ∧
      ¬ EveryState (loopStep watchHandler) GreetedOnce m (greetingRun [4, 9]) := by
  refine ⟨_, rfl, by decide +kernel, fun hall => ?_⟩
  have hrun : (watchRun 3 (fun fd => fd < 3) listening (greetingRun [4, 9])).map
      (fun m => greetingBytes (m.world.app.history 5)) = .ok (welcome.take 4 ++ welcome) := by
    decide +kernel
  obtain ⟨m', hm', hbytes⟩ := exists_ok_of_map hrun
  have hprefix := (hall.last hm' 5).1
  rw [hbytes] at hprefix
  exact absurd hprefix (by decide)

end LinuxCodeDemos.Epoll

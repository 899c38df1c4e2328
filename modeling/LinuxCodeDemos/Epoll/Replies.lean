/-
  LinuxCodeDemos.Epoll.Replies

  The replies of the echo server.

  Between two reads of a connection `do_echo_response` writes at most once: a positive result makes
  the connection wait for input, and every event it is then registered for calls the read handler
  first.  What it writes is the text up to the first NUL, as far as `write` takes it.  So the
  reply is "->" and the chunk exactly if the chunk has no NUL, the connection gets to write
  before it is read again, and that one `write` takes everything (`reply_iff`).
-/

import Mathlib.Data.List.Chain
import Mathlib.Data.List.TakeWhile
import LinuxCodeDemos.Epoll.Greeting

namespace LinuxCodeDemos.Epoll

open Lib
open Function (update)

-- ============================================================================
-- Definitions
-- ============================================================================

/-- What `strlen` leaves of the reply to a chunk. -/
def replyTo (chunk : List UInt8) : List UInt8 := (45 :: 62 :: chunk).takeWhile (· ≠ 0)

/-- What may be noted on a connection right after what. -/
def Follows : Piece → Piece → Prop
  | .greeting _, .read (some _) => False
  | .greeting _, .echo _ _ => False
  | .echo bytes sent, .read (some chunk) => bytes = (replyTo chunk).take sent.toNat
  | .echo _ _, .echo _ sent => sent ≤ 0
  | _, _ => True

/-- The entry of a connection after what was noted last: closed, about to answer the chunk, or
    waiting for input. -/
def Phase (F : Fde Handler Nat) (events : UInt32) (heap : Nat → Option ConnectStat) :
    List Piece → Prop
  | .read (some chunk) :: _ =>
      F.writeHandler = none ∨ F.writeHandler = some .doEchoResponse ∧
        ∃ block, F.writeData = some block ∧ replyText heap block = replyTo chunk
  | .echo _ sent :: _ =>
      F.writeHandler = none ∨ F.writeHandler = some .doEchoResponse ∧
        (0 < sent → F.readHandler = some .doEchoHandler ∧ events = readEvents)
  | _ => True

/-- Every connection is in the phase that its record says. -/
structure ReplyInv (c : Comm Handler Nat) (heap : Nat → Option ConnectStat)
    (history : Nat → List Piece) : Prop where
  chain : ∀ fd, (history fd).IsChain Follows
  phase : ∀ fd, Phase (c.fdTable fd) (c.epollState fd) heap (history fd)

/-- A reply is due: `do_echo_response` has not written since the latest read. -/
def Due (pieces : List Piece) : Prop :=
  ∀ bytes sent earlier, pieces = .echo bytes sent :: earlier → sent ≤ 0

/-- Between the two halves of an event a reply is due, or there is no handler for it. -/
def DueAt (m : WatchLoop) : Prop :=
  ∀ event batch, m.control = .write event batch →
    (m.world.comm.fdTable event.fd).writeHandler = some .doEchoResponse →
      Due (m.world.app.history event.fd)

-- ============================================================================
-- Phases
-- ============================================================================

section Phases

variable {F F' : Fde Handler Nat} {events events' : UInt32} {heap heap' : Nat → Option ConnectStat}
  {pieces : List Piece}

theorem phase_zero (pieces : List Piece) : Phase Fde.zero events heap pieces := by
  unfold Phase
  split
  · exact .inl rfl
  · exact .inl rfl
  · trivial

/-- What a phase depends on. -/
theorem Phase.congr (h : Phase F events heap pieces) (hread : F'.readHandler = F.readHandler)
    (hwrite : F'.writeHandler = F.writeHandler) (hdata : F'.writeData = F.writeData)
    (hheap : ∀ block, F.writeData = some block → heap' block = heap block) :
    Phase F' events heap' pieces := by
  unfold Phase at h ⊢
  split
  · rcases h with hnone | ⟨hresponse, block, hblock, htext⟩
    · exact .inl (hwrite.trans hnone)
    · refine .inr ⟨hwrite.trans hresponse, block, hdata.trans hblock, ?_⟩
      rw [replyText, hheap block hblock]
      exact htext
  · rcases h with hnone | ⟨hresponse, hsent⟩
    · exact .inl (hwrite.trans hnone)
    · refine .inr ⟨hwrite.trans hresponse, fun hpos => ?_⟩
      exact ⟨hread.trans (hsent hpos).1, (hsent hpos).2⟩
  · trivial

/-- While `do_welcome_handler` is there neither a chunk nor a reply was noted last. -/
theorem Phase.greeting (h : Phase F events heap pieces)
    (hwrite : F.writeHandler = some .doWelcomeHandler) (bytes : List UInt8) :
    ∀ piece ∈ pieces.head?, Follows (.greeting bytes) piece := by
  intro piece hpiece
  obtain ⟨earlier, rfl⟩ := List.head?_eq_some_iff.mp hpiece
  rcases piece with _ | (_ | chunk) | ⟨_, sent⟩
  · trivial
  · trivial
  · rcases h with hnone | ⟨hresponse, -⟩
    · rw [hwrite] at hnone
      cases hnone
    · rw [hwrite] at hresponse
      cases hresponse
  · rcases h with hnone | ⟨hresponse, -⟩
    · rw [hwrite] at hnone
      cases hnone
    · rw [hwrite] at hresponse
      cases hresponse

/-- What `do_echo_response` writes answers the chunk that was noted last. -/
theorem Phase.echo (h : Phase F events heap pieces)
    (hwrite : F.writeHandler = some .doEchoResponse) {block : Nat} (hdata : F.writeData = some block)
    (hdue : Due pieces) (sent : Int) :
    ∀ piece ∈ pieces.head?, Follows (.echo ((replyText heap block).take sent.toNat) sent) piece := by
  intro piece hpiece
  obtain ⟨earlier, rfl⟩ := List.head?_eq_some_iff.mp hpiece
  rcases piece with _ | (_ | chunk) | ⟨bytes, sent'⟩
  · trivial
  · trivial
  · rcases h with hnone | ⟨-, block', hblock', htext⟩
    · rw [hwrite] at hnone
      cases hnone
    · obtain rfl : block = block' := Option.some.inj (hdata.symm.trans hblock')
      show _ = _
      rw [htext]
  · exact hdue bytes sent' earlier rfl

end Phases

-- ============================================================================
-- Calls
-- ============================================================================

section Calls

variable {c c' : Comm Handler Nat} {heap heap' : Nat → Option ConnectStat}
  {history : Nat → List Piece} {fd : Nat} {data : Option Nat} {pieces : List Piece}

/-- The text ends at its first NUL. -/
theorem takeWhile_append_nul (bytes rest : List UInt8) :
    (bytes ++ 0 :: rest).takeWhile (· ≠ 0) = bytes.takeWhile (· ≠ 0) := by
  induction bytes with
  | nil => rfl
  | cons b bytes ih =>
      rw [List.cons_append, List.takeWhile_cons, List.takeWhile_cons, ih]

theorem takeWhile_fillSendBuf (buf chunk : List UInt8) :
    (fillSendBuf buf chunk).takeWhile (· ≠ 0) = replyTo chunk := by
  have hfill : fillSendBuf buf chunk
      = (45 :: 62 :: chunk) ++ 0 :: buf.drop (0 + (45 :: 62 :: (chunk ++ [0])).length) := by
    simp [fillSendBuf, splice]
  rw [hfill, takeWhile_append_nul, replyTo]

theorem replyText_setSendBuf {w : EchoWorld} {block : Nat} (hdata : DataOwned w.app.heap fd (some block))
    (chunk : List UInt8) :
    replyText (setSendBuf block (fun buf => fillSendBuf buf chunk) w).app.heap block
      = replyTo chunk := by
  obtain ⟨stat, hstat, -⟩ := hdata block rfl
  show replyText (update w.app.heap block _) block = _
  rw [replyText, Function.update_self, hstat, ← takeWhile_fillSendBuf stat.sendBuf chunk]
  rfl

/-- The blocks of other descriptors are other blocks. -/
theorem HeapInv.block_ne {w : EchoWorld} (h : HeapInv w) (hdata : DataOwned w.app.heap fd data)
    {k : Nat} (hk : k ≠ fd) {block : Nat} (hblock : (w.comm.fdTable k).writeData = some block) :
    data ≠ some block := by
  intro heq
  obtain ⟨stat, hstat, hfd⟩ := hdata block heq
  obtain ⟨stat', hstat', hfd'⟩ := h.owned k block (.inr (.inl hblock))
  rw [hstat] at hstat'
  cases hstat'
  exact hk (hfd'.symm.trans hfd)

theorem heap_setSendBuf_of_ne {w : EchoWorld} {block other : Nat} (f : List UInt8 → List UInt8)
    (hne : some block ≠ some other) : (setSendBuf block f w).app.heap other = w.app.heap other :=
  Function.update_of_ne (fun heq => hne (congrArg some heq.symm)) ..

theorem freed_of_ne {other : Nat} (hne : data ≠ some other) : freed data heap other = heap other := by
  cases data with
  | none => rfl
  | some block => exact Function.update_of_ne (fun heq => hne (congrArg some heq.symm)) ..

/-- One connection changes. -/
theorem ReplyInv.change (h : ReplyInv c heap history)
    (hother : ∀ k ≠ fd, c'.fdTable k = c.fdTable k ∧ c'.epollState k = c.epollState k)
    (hheap : ∀ k ≠ fd, ∀ block, (c.fdTable k).writeData = some block → heap' block = heap block)
    (hchain : pieces.IsChain Follows) (hphase : Phase (c'.fdTable fd) (c'.epollState fd) heap' pieces) :
    ReplyInv c' heap' (update history fd pieces) := by
  constructor
  case chain =>
    exact (Function.forall_update_iff history fun _ pieces => pieces.IsChain Follows).mpr
      ⟨hchain, fun k _ => h.chain k⟩
  case phase =>
    intro k
    by_cases hk : k = fd
    · rw [hk, Function.update_self]
      exact hphase
    · obtain ⟨htable, hstate⟩ := hother k hk
      rw [Function.update_of_ne hk, htable, hstate]
      exact (h.phase k).congr rfl rfl rfl (hheap k hk)

theorem ReplyInv.sets (h : ReplyInv c heap history) {F : Fde Handler Nat} {events : UInt32}
    (hsets : Sets fd F events c c')
    (hheap : ∀ k ≠ fd, ∀ block, (c.fdTable k).writeData = some block → heap' block = heap block)
    (hchain : pieces.IsChain Follows) (hphase : Phase F events heap' pieces) :
    ReplyInv c' heap' (update history fd pieces) := by
  refine h.change ?_ hheap hchain ?_
  · intro k hk
    rw [hsets.fdTable, hsets.epollState, Function.update_of_ne hk, Function.update_of_ne hk]
    exact ⟨rfl, rfl⟩
  · rw [hsets.fdTable_self, hsets.epollState_self]
    exact hphase

/-- A connection is closed. -/
theorem ReplyInv.close (h : ReplyInv c heap history) (hsets : Sets fd Fde.zero 0 c c')
    (hheap : ∀ k ≠ fd, ∀ block, (c.fdTable k).writeData = some block → heap' block = heap block)
    (hchain : pieces.IsChain Follows) : ReplyInv c' heap' (update history fd pieces) :=
  h.sets hsets hheap hchain (phase_zero pieces)

/-- A read may follow anything. -/
theorem isChain_read (h : pieces.IsChain Follows) (chunk : Option (List UInt8)) :
    (Piece.read chunk :: pieces).IsChain Follows := by
  refine h.cons fun piece _ => ?_
  rcases piece with _ | (_ | _) | _ <;> trivial

/-- A new block is not one that is in use. -/
theorem HeapInv.heap_statInit {w : EchoWorld} (h : HeapInv w) (allocated : Bool) (newFd : Nat)
    {k block : Nat} (hblock : (w.comm.fdTable k).writeData = some block) :
    (Epoll.statInit allocated newFd w.app).1.heap block = w.app.heap block := by
  obtain ⟨stat, hstat, -⟩ := h.owned k block (.inr (.inl hblock))
  rw [Epoll.statInit]
  split
  · have hne : block ≠ w.app.next := by
      intro heq
      rw [heq, h.fresh _ (Nat.le_refl _)] at hstat
      cases hstat
    exact Function.update_of_ne hne ..
  · rfl

/-- A call keeps the phases; `do_echo_response` is called only when a reply is due. -/
theorem ReplyInv.call {i : Input Reply} {handler : Handler} {w w' : WatchWorld}
    (h : ReplyInv w.comm w.app.app.heap w.app.history) (hinv : HeapInv (w.mapApp Watched.app))
    (hdata : DataOwned w.app.app.heap fd data)
    (hwelcome : handler = .doWelcomeHandler →
      (w.comm.fdTable fd).writeHandler = some .doWelcomeHandler)
    (hecho : handler = .doEchoResponse → (w.comm.fdTable fd).writeHandler = some .doEchoResponse ∧
      (w.comm.fdTable fd).writeData = data ∧ Due (w.app.history fd))
    (hcall : watchHandler handler fd data i w = .ok w') :
    ReplyInv w'.comm w'.app.app.heap w'.app.history := by
  obtain ⟨v, hv, rfl⟩ := watchHandler_ok hcall
  have heffect := (callHandler_effect handler fd data i _).of_ok hv
  have hchain := h.chain fd
  have hphase := h.phase fd
  have hne : ∀ k ≠ fd, ∀ block, (w.comm.fdTable k).writeData = some block → data ≠ some block :=
    fun k hk block hblock => hinv.block_ne hdata hk hblock
  cases heffect with
  | nobody haccept =>
      dsimp only [note]
      rw [show acceptFd i.reply.accepted w.comm = none from haccept]
      exact h
  | zero haccept =>
      dsimp only [note]
      rw [show acceptFd i.reply.accepted w.comm = some 0 from haccept]
      exact h.change (fun _ _ => ⟨rfl, rfl⟩) (fun _ _ _ _ => rfl) .nil trivial
  | joined newFd haccept n comm hsets =>
      dsimp only [note]
      rw [show acceptFd i.reply.accepted w.comm = some newFd from haccept]
      exact h.sets hsets (fun k _ block hblock => hinv.heap_statInit _ newFd hblock) .nil trivial
  | greeted _ n comm hsets =>
      exact h.sets hsets (fun _ _ _ _ => rfl) (hchain.cons (hphase.greeting (hwelcome rfl) _)) trivial
  | interrupted =>
      exact h.change (fun _ _ => ⟨rfl, rfl⟩) (fun _ _ _ _ => rfl)
        (hchain.cons (hphase.greeting (hwelcome rfl) _)) trivial
  | unread block hblock hchunk =>
      obtain rfl := hblock
      dsimp only [note]
      rw [hchunk]
      exact h.change (fun _ _ => ⟨rfl, rfl⟩)
        (fun k hk other hother => heap_setSendBuf_of_ne _ (hne k hk other hother))
        (isChain_read hchain none) trivial
  | closed block hblock hchunk f v hup =>
      obtain rfl := hblock
      refine h.close (c := w.comm) hup.sets ?_ (isChain_read hchain _)
      intro k hk other hother
      rw [hup.heap, freed_of_ne (hne k hk other hother)]
      exact heap_setSendBuf_of_ne f (hne k hk other hother)
  | received block hblock chunk hchunk n comm hsets =>
      obtain rfl := hblock
      dsimp only [note]
      rw [hchunk]
      refine h.sets hsets (fun k hk other hother => heap_setSendBuf_of_ne _ (hne k hk other hother))
        (isChain_read hchain _) (.inr ⟨rfl, block, rfl, ?_⟩)
      exact replyText_setSendBuf (w := w.mapApp Watched.app) hdata chunk
  | answered block hblock hsent n comm hsets =>
      obtain rfl := hblock
      obtain ⟨hwrite, hwriteData, hdue⟩ := hecho rfl
      rw [writtenSince_cons rfl]
      refine h.sets hsets (fun _ _ _ _ => rfl) (hchain.cons (hphase.echo hwrite hwriteData hdue _))
        (.inr ⟨hwrite, fun _ => ⟨rfl, rfl⟩⟩)
  | cut block hblock hsent v hup =>
      obtain rfl := hblock
      obtain ⟨hwrite, hwriteData, hdue⟩ := hecho rfl
      have hbytes : writtenSince w.app.app v.app = _ := writtenSince_cons hup.written
      rw [hbytes]
      refine h.close (c := w.comm) hup.sets ?_ (hchain.cons (hphase.echo hwrite hwriteData hdue _))
      intro k hk other hother
      rw [hup.heap, freed_of_ne (hne k hk other hother)]
      rfl
  | refused block hblock hsent =>
      obtain rfl := hblock
      obtain ⟨hwrite, hwriteData, hdue⟩ := hecho rfl
      rw [writtenSince_cons rfl]
      exact h.change (fun _ _ => ⟨rfl, rfl⟩) (fun _ _ _ _ => rfl)
        (hchain.cons (hphase.echo hwrite hwriteData hdue _))
        (.inr ⟨hwrite, fun hpos => absurd hpos (by omega)⟩)
  | timedOut v hup =>
      have hclosed : ReplyInv v.comm v.app.heap (update w.app.history fd (w.app.history fd)) := by
        refine h.close hup.sets ?_ hchain
        intro k hk other hother
        rw [hup.heap]
        exact freed_of_ne (hne k hk other hother)
      rw [Function.update_eq_self] at hclosed
      exact hclosed

end Calls

-- ============================================================================
-- Steps
-- ============================================================================

section Steps

variable {m m' : WatchLoop} {i : Input Reply}

/-- An event of a connection that waits for input calls the read handler. -/
theorem readEvents_reads {events : UInt32} (hne : events ≠ 0) (hallowed : events &&& ~~~readEvents = 0) :
    events &&& ~~~epollOut ≠ 0 := by
  intro hout
  have hall : ~~~readEvents ||| ~~~epollOut = -1 := by decide
  apply hne
  calc events = events &&& (~~~readEvents ||| ~~~epollOut) := by rw [hall]; simp
    _ = events &&& ~~~readEvents ||| events &&& ~~~epollOut :=
        UInt32.toBitVec_inj.mp BitVec.and_or_distrib_left
    _ = 0 := by rw [hallowed, hout]; rfl

/-- A connection that has answered waits for input. -/
theorem ReplyInv.answered {c : Comm Handler Nat} {heap : Nat → Option ConnectStat}
    {history : Nat → List Piece} (h : ReplyInv c heap history) {fd : Nat}
    (hwrite : (c.fdTable fd).writeHandler = some .doEchoResponse) (hnot : ¬ Due (history fd)) :
    (c.fdTable fd).readHandler = some .doEchoHandler ∧ c.epollState fd = readEvents := by
  simp only [Due, not_forall, Int.not_le] at hnot
  obtain ⟨bytes, sent, earlier, hpieces, hsent⟩ := hnot
  have hphase := h.phase fd
  rw [hpieces] at hphase
  rcases hphase with hnone | ⟨-, hdone⟩
  · rw [hwrite] at hnone
    cases hnone
  · exact hdone hsent

/-- `accept_connection` begins a new record for its descriptor and leaves the others. -/
theorem dueAt_accept {fd k : Nat} {data : Option Nat} {w w' : EchoWorld}
    {history : Nat → List Piece} (bytes : List UInt8) (he : Effect k data i w .acceptConnection w')
    (hold : (w.comm.fdTable fd).writeHandler = some .doEchoResponse → Due (history fd))
    (hwrite : (w'.comm.fdTable fd).writeHandler = some .doEchoResponse) :
    Due (note .acceptConnection k i w.comm bytes history fd) := by
  have hnil : Due [] := fun _ _ _ heq => nomatch heq
  cases he with
  | nobody haccept =>
      rw [note, haccept]
      exact hold hwrite
  | zero haccept =>
      rw [note, haccept]
      dsimp only
      by_cases hfd : fd = 0
      · rw [hfd, Function.update_self]
        exact hnil
      · rw [Function.update_of_ne hfd]
        exact hold hwrite
  | joined newFd haccept n comm hsets =>
      rw [note, haccept]
      dsimp only at hwrite ⊢
      by_cases hfd : fd = newFd
      · rw [hfd, Function.update_self]
        exact hnil
      · rw [Function.update_of_ne hfd]
        rw [hsets.fdTable, Function.update_of_ne hfd] at hwrite
        exact hold hwrite

/-- A step keeps the phases. -/
theorem ReplyInv.step (h : ReplyInv m.world.comm m.world.app.app.heap m.world.app.history)
    (hserver : ServerInv m.world) (hdue : DueAt m) (hstep : loopStep watchHandler m i = .ok m') :
    ReplyInv m'.world.comm m'.world.app.app.heap m'.world.app.history := by
  have htick : ReplyInv (m.world.tick i).comm (m.world.tick i).app.app.heap
      (m.world.tick i).app.history := ⟨h.chain, h.phase⟩
  have hinv : HeapInv ((m.world.tick i).mapApp Watched.app) := ⟨hserver.heap.owned, hserver.heap.fresh⟩
  cases loopStep_step hstep with
  | idle hidle | unready _ _ _ _ _ hidle =>
      refine ⟨?_, ?_⟩
      · rw [hidle.app]
        exact h.chain
      · rw [hidle.app, hidle.fdTable, hidle.epollState]
        exact h.phase
  | read event batch _ _ handler hhandler _ hcall =>
      refine htick.call hinv (fun block hb => hinv.owned _ block (.inl hb)) ?_ ?_ hcall
      · rintro rfl
        rcases (hserver.roles.role _).read _ hhandler with heq | heq <;> cases heq
      · rintro rfl
        rcases (hserver.roles.role _).read _ hhandler with heq | heq <;> cases heq
  | write event batch hbefore _ handler hhandler hevent hcall =>
      refine htick.call hinv (fun block hb => hinv.owned _ block (.inr (.inl hb))) ?_ ?_ hcall
      · rintro rfl
        exact hhandler
      · rintro rfl
        exact ⟨hhandler, rfl, hdue event batch hbefore hhandler⟩
  | timeout fd _ handler hhandler hcall =>
      obtain rfl := (hserver.roles.role fd).timeout _ hhandler
      -- the timeout handler of the entry is cleared before the call
      have howned : Owned m.world.app.app.heap
          (setEntry fd Fde.fired (logExpired fd (m.world.tick i).comm)) :=
        hinv.owned.setEntry (c := logExpired fd (m.world.tick i).comm)
          fun block hb => hinv.owned fd block hb
      have hfired : ReplyInv (setEntry fd Fde.fired (logExpired fd (m.world.tick i).comm))
          m.world.app.app.heap m.world.app.history := by
        refine ⟨h.chain, fun k => ?_⟩
        show Phase (update m.world.comm.fdTable fd _ k) _ _ _
        by_cases hk : k = fd
        · rw [hk, Function.update_self]
          exact (h.phase fd).congr rfl rfl rfl fun _ _ => rfl
        · rw [Function.update_of_ne hk]
          exact h.phase k
      refine ReplyInv.call (w := { m.world.tick i with comm := _ }) hfired ⟨howned, hinv.fresh⟩
        (fun block hb => hinv.owned fd block (.inr (.inr hb))) ?_ ?_ hcall
      · rintro ⟨⟩
      · rintro ⟨⟩
  | expired fd _ hsets happ =>
      rw [happ]
      have hclosed := h.close hsets (fun _ _ _ _ => rfl) (h.chain fd)
      rw [Function.update_eq_self] at hclosed
      exact hclosed

/-- After the first half of an event a reply is due, or the connection cannot answer. -/
theorem dueAt_step (h : ReplyInv m.world.comm m.world.app.app.heap m.world.app.history)
    (hserver : ServerInv m.world) (hallowed : Allowed m)
    (hstep : loopStep watchHandler m i = .ok m') : DueAt m' := by
  intro event batch hcontrol hwrite
  cases loopStep_step hstep with
  | idle _ hno => exact absurd hcontrol (hno event batch)
  | unready event' batch' hbefore hafter hno hidle =>
      obtain ⟨rfl, rfl⟩ : event' = event ∧ batch' = batch := by
        rw [hafter] at hcontrol
        exact Control.write.inj hcontrol
      rw [hidle.app]
      rw [hidle.fdTable] at hwrite
      by_contra hnot
      obtain ⟨hread, hstate⟩ := h.answered hwrite hnot
      rw [Allowed, hbefore] at hallowed
      dsimp only at hallowed
      rw [hstate] at hallowed
      rcases hno with hnone | hzero
      · rw [hread] at hnone
        cases hnone
      · exact readEvents_reads hallowed.1 hallowed.2 hzero
  | read event' batch' hbefore hafter handler hhandler hevent hcall =>
      obtain ⟨rfl, rfl⟩ : event' = event ∧ batch' = batch := by
        rw [hafter] at hcontrol
        exact Control.write.inj hcontrol
      obtain ⟨v, hv, hworld⟩ := watchHandler_ok hcall
      have heffect := (callHandler_effect handler event'.fd _ i _).of_ok hv
      rw [hworld] at hwrite ⊢
      rcases (hserver.roles.role _).read _ hhandler with rfl | rfl
      · -- the listening socket is not a connection that has answered
        have hold : (m.world.comm.fdTable event'.fd).writeHandler = some .doEchoResponse →
            Due (m.world.app.history event'.fd) := by
          intro hwrite
          by_contra hnot
          obtain ⟨hread, -⟩ := h.answered hwrite hnot
          rw [hhandler] at hread
          cases hread
        exact dueAt_accept (writtenSince m.world.app.app v.app) heffect hold hwrite
      · intro bytes sent earlier heq
        have hnoted : update m.world.app.history event'.fd _ event'.fd = _ := heq
        rw [Function.update_self] at hnoted
        cases hnoted
  | write _ _ _ hafter =>
      rw [hafter] at hcontrol
      cases hcontrol
  | timeout _ hafter =>
      rw [hafter] at hcontrol
      cases hcontrol
  | expired _ hafter =>
      rw [hafter] at hcontrol
      cases hcontrol

end Steps

-- ============================================================================
-- Runs
-- ============================================================================

/-- Between a chunk and the next read there is at most one write that takes something, and it is
    the answer to the chunk. -/
theorem exchange_cases {between earlier : List Piece} {chunk : List UInt8}
    (hchain : (between ++ .read (some chunk) :: earlier).IsChain Follows)
    (hread : ∀ next, .read next ∉ between)
    (hsent : ∀ bytes sent, .echo bytes sent ∈ between → 0 < sent) :
    between = [] ∨ ∃ sent, between = [.echo ((replyTo chunk).take sent.toNat) sent] := by
  rcases List.eq_nil_or_concat' between with hnil | ⟨init, piece, rfl⟩
  · exact .inl hnil
  · rw [List.append_assoc] at hchain
    obtain ⟨-, hrest, hinit⟩ := List.isChain_append.mp hchain
    have hfollows : Follows piece (.read (some chunk)) := (List.isChain_cons_cons.mp hrest).1
    rcases piece with _ | next | ⟨bytes, sent⟩
    · exact hfollows.elim
    · exact absurd (by simp) (hread next)
    · obtain rfl : bytes = (replyTo chunk).take sent.toNat := hfollows
      have hpos : 0 < sent := hsent ((replyTo chunk).take sent.toNat) sent (by simp)
      rcases List.eq_nil_or_concat' init with rfl | ⟨init', piece, rfl⟩
      · exact .inr ⟨sent, rfl⟩
      · have hagain : Follows piece (.echo ((replyTo chunk).take sent.toNat) sent) :=
          hinit piece (by simp) _ rfl
        rcases piece with _ | next | ⟨bytes', sent'⟩
        · exact hagain.elim
        · exact absurd (by simp) (hread next)
        · have hle : sent ≤ 0 := hagain
          omega

/-- The text that `write` takes is the whole reply. -/
theorem take_replyTo_iff (chunk : List UInt8) (n : Nat) :
    (replyTo chunk).take n = 45 :: 62 :: chunk ↔ 0 ∉ chunk ∧ chunk.length + 2 ≤ n := by
  have hall : replyTo chunk = 45 :: 62 :: chunk ↔ 0 ∉ chunk := by
    rw [replyTo, List.takeWhile_eq_self_iff]
    simp only [List.mem_cons, forall_eq_or_imp, decide_eq_true_eq]
    refine ⟨?_, ?_⟩
    · rintro ⟨-, -, hbytes⟩ hmem
      exact hbytes 0 hmem rfl
    · intro hmem
      refine ⟨by decide, by decide, fun b hb heq => ?_⟩
      rw [heq] at hb
      exact hmem hb
  have hlen : (replyTo chunk).length ≤ chunk.length + 2 :=
    (List.takeWhile_prefix _).length_le
  rw [← hall]
  refine ⟨?_, ?_⟩
  · intro htake
    have hlength := congrArg List.length htake
    rw [List.length_take, List.length_cons, List.length_cons] at hlength
    refine ⟨?_, by omega⟩
    rw [← htake, List.take_of_length_le (by omega)]
  · rintro ⟨hwhole, hn⟩
    rw [List.take_of_length_le (by omega), hwhole]

/-- In every run with events that the connections are registered for: if the server reads a chunk
    from a connection, and what it then writes to it before it reads again always takes something,
    it has written "->" and the chunk exactly if the chunk has no NUL, it has written once and
    that `write` took everything. -/
theorem reply_iff {listenSock : Nat} {isOpen : Nat → Bool} {start : Input Reply} {m m' : WatchLoop}
    (hstart : watchStart listenSock isOpen start = .ok m) {inputs : List (Input Reply)}
    (hallowed : AlongRun (loopStep watchHandler) (fun m _ => Allowed m) m inputs)
    (hrun : runSteps (loopStep watchHandler) m inputs = .ok m') {fd : Nat}
    {later between earlier : List Piece} {next : Option (List UInt8)} {chunk : List UInt8}
    (hhistory : m'.world.app.history fd
      = later ++ .read next :: (between ++ .read (some chunk) :: earlier))
    (hread : ∀ next, .read next ∉ between)
    (hsent : ∀ bytes sent, .echo bytes sent ∈ between → 0 < sent) :
    echoBytes between = 45 :: 62 :: chunk ↔
      0 ∉ chunk ∧ ∃ bytes sent, between = [.echo bytes sent] ∧ (chunk.length : Int) + 2 ≤ sent := by
  obtain ⟨hserver, hempty, -, hselect⟩ := watchStart_serverInv hstart
  have hzero : ReplyInv m.world.comm m.world.app.app.heap m.world.app.history := by
    refine ⟨?_, ?_⟩
    · intro k
      rw [hempty]
      exact .nil
    · intro k
      rw [hempty]
      trivial
  have hdue : DueAt m := by
    intro event batch hcontrol
    rw [hselect] at hcontrol
    cases hcontrol
  have hends : Ends (fun m : WatchLoop => ServerInv m.world ∧
      ReplyInv m.world.comm m.world.app.app.heap m.world.app.history ∧ DueAt m) (fun _ => True)
      (runSteps (loopStep watchHandler) m inputs) := by
    refine runSteps_ends ?_ ⟨hserver, hzero, hdue⟩ hallowed
    rintro m i ⟨hserver, hreply, hdue⟩ hallowed
    cases hstep : loopStep watchHandler m i with
    | error e => trivial
    | ok m' =>
        exact ⟨hserver.step hstep, hreply.step hserver hdue hstep,
          dueAt_step hreply hserver hallowed hstep⟩
  obtain ⟨-, hreply, -⟩ := hends.of_ok hrun
  have hchain := hreply.chain fd
  rw [hhistory] at hchain
  have hchain := (List.isChain_append.mp hchain).2.1.tail
  rcases exchange_cases hchain hread hsent with rfl | ⟨sent, rfl⟩
  · refine ⟨fun heq => (nomatch heq), ?_⟩
    rintro ⟨-, bytes, sent, heq, -⟩
    cases heq
  · have hbytes : echoBytes [.echo ((replyTo chunk).take sent.toNat) sent]
        = (replyTo chunk).take sent.toNat := by
      simp [Piece.echoBytes]
    rw [hbytes, take_replyTo_iff]
    refine and_congr_right fun _ => ⟨fun hle => ⟨_, sent, rfl, by omega⟩, ?_⟩
    rintro ⟨bytes, sent', heq, hle⟩
    cases heq
    omega

/-- A client connects on descriptor 5, is greeted, sends a chunk, gets what `write` takes of the
    reply, and is read again. -/
def exchangeRun (chunk : List UInt8) (sent : Int) : List (Input Reply) :=
  turn 3 epollIn connecting ++ turn 5 epollOut { connecting with sent := 9 } ++
    turn 5 epollIn { connecting with incoming := some chunk } ++
    turn 5 epollOut { connecting with sent } ++ turn 5 epollIn connecting

theorem reply_iff_whole :
    ∃ m m', watchStart 3 (fun fd => fd < 3) listening = .ok m ∧
      runSteps (loopStep watchHandler) m (exchangeRun [97, 98, 99] 5) = .ok m' ∧
      m'.world.app.history 5
        = [.read none, .echo [45, 62, 97, 98, 99] 5, .read (some [97, 98, 99]), .greeting welcome] ∧
      echoBytes [.echo [45, 62, 97, 98, 99] 5] = 45 :: 62 :: [97, 98, 99] := by
  have hrun : (watchRun 3 (fun fd => fd < 3) listening (exchangeRun [97, 98, 99] 5)).map
      (fun m => m.world.app.history 5) = .ok [.read none, .echo [45, 62, 97, 98, 99] 5,
        .read (some [97, 98, 99]), .greeting welcome] := by
    decide +kernel
  obtain ⟨m', hm', hhistory⟩ := exists_ok_of_map hrun
  refine ⟨_, m', rfl, hm', hhistory, ?_⟩
  refine (@reply_iff 3 _ _ _ m' rfl _ (by decide +kernel) hm' 5 [] [.echo [45, 62, 97, 98, 99] 5]
    [.greeting welcome] none [97, 98, 99] hhistory (by simp) (by simp)).mpr ?_
  exact ⟨by decide, _, 5, rfl, by decide⟩

/-- `write` takes three bytes of the reply to "abc"; the server turns to reading, and the client
    has got "->a". -/
theorem reply_short :
    ∃ m m', watchStart 3 (fun fd => fd < 3) listening = .ok m ∧
      AlongRun (loopStep watchHandler) (fun m _ => Allowed m) m (exchangeRun [97, 98, 99] 3) ∧
      runSteps (loopStep watchHandler) m (exchangeRun [97, 98, 99] 3) = .ok m' ∧
      m'.world.app.history 5
        = [.read none, .echo [45, 62, 97] 3, .read (some [97, 98, 99]), .greeting welcome] ∧
      echoBytes [.echo [45, 62, 97] 3] ≠ 45 :: 62 :: [97, 98, 99] := by
  have hrun : (watchRun 3 (fun fd => fd < 3) listening (exchangeRun [97, 98, 99] 3)).map
      (fun m => m.world.app.history 5) = .ok [.read none, .echo [45, 62, 97] 3,
        .read (some [97, 98, 99]), .greeting welcome] := by
    decide +kernel
  obtain ⟨m', hm', hhistory⟩ := exists_ok_of_map hrun
  exact ⟨_, m', rfl, by decide +kernel, hm', hhistory, by decide⟩

end LinuxCodeDemos.Epoll

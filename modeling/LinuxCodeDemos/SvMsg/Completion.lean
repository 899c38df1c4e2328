/-
  LinuxCodeDemos.SvMsg.Completion

  The file server comes to an end with its clients.

  - `Sys.left` bounds the calls that are still to come: every call makes it smaller, so no run goes
    on for ever.
  - Where no call fails for a reason of its own and a queue holds at least one full message, the
    calls stop only when all clients are done: no two processes wait for each other.
-/

import Mathlib.Algebra.BigOperators.Group.Finset.Basic
import Mathlib.Algebra.Order.BigOperators.Group.Finset
import LinuxCodeDemos.SvMsg.Delivery

namespace LinuxCodeDemos.SvMsg

open Lib

-- ============================================================================
-- The calls that are left
-- ============================================================================

/-- The size of a file. -/
def Env.size (env : Env) (path : Path) : Nat := ((env.files path).getD []).length

/-- The calls that a request for a file of `n` bytes brings, those of the server included, and the
    messages for its client. -/
def requestLeft (n : Nat) : Nat := 3 * n + 7

def clientLeft (n : Nat) : ClientPc → Nat
  | .start => requestLeft n + 5
  | .getQueue => requestLeft n + 4
  | .sendRequest => requestLeft n + 3
  | .receiveFirst | .receiveNext _ _ => 2
  | .exiting _ => 1
  | .exited _ => 0

/-- A child has `n` bytes left to read. -/
def childLeft (n : Nat) : ChildPc → Nat
  | .opening => 3 * n + 5
  | .reading => 3 * n + 3
  | .sending _ => 3 * n + 5
  | .couldntOpen | .ending => 2
  | .exited => 0

def serverLeft (env : Env) : ServerPc → Nat
  | .start => 3
  | .receive => 2
  | .fork req => requestLeft (env.size req.pathname) + 1
  | .stopping => 1
  | .exited => 0

namespace Sys

/-- The calls of a client, and the messages in its queue. -/
def clientPart (env : Env) (s : Sys) (c : Nat) : Nat :=
  clientLeft (env.size (s.clients c).pathname) (s.clients c).pc + ((s.queues c).getD []).length

def requestsPart (env : Env) (s : Sys) : Nat :=
  ((s.serverQueue.getD []).map fun req => requestLeft (env.size req.pathname)).sum

def childPart (env : Env) (ch : Child) : Nat :=
  childLeft (env.size ch.req.pathname - ch.offset) ch.pc

/-- A bound for the calls that are still to come. -/
def left (env : Env) (s : Sys) : Nat :=
  serverLeft env s.server + requestsPart env s
    + ∑ c ∈ Finset.range env.numClients, clientPart env s c + (s.children.map (childPart env)).sum

end Sys

/-- A sum of which one part changes. -/
theorem sum_range_update (f f' : Nat → Nat) {n c : Nat} (hother : ∀ c', c' ≠ c → f' c' = f c')
    (hc : c < n ∨ f c ≤ f' c) :
    (∑ i ∈ Finset.range n, f' i) + f c ≤ (∑ i ∈ Finset.range n, f i) + f' c := by
  by_cases hlt : c < n
  · have hmem : c ∈ Finset.range n := Finset.mem_range.mpr hlt
    have hrest : ∑ i ∈ (Finset.range n).erase c, f' i = ∑ i ∈ (Finset.range n).erase c, f i :=
      Finset.sum_congr rfl fun i hi => hother i (Finset.ne_of_mem_erase hi)
    have hf := Finset.add_sum_erase (Finset.range n) f hmem
    have hf' := Finset.add_sum_erase (Finset.range n) f' hmem
    omega
  · have hsame : ∑ i ∈ Finset.range n, f' i = ∑ i ∈ Finset.range n, f i :=
      Finset.sum_congr rfl fun i hi => hother i fun heq => hlt (heq ▸ Finset.mem_range.mp hi)
    have hle := hc.resolve_left hlt
    omega

theorem sum_map_set {α : Type} (f : α → Nat) {l : List α} {k : Nat} {a b : α}
    (hk : l[k]? = some a) : ((l.set k b).map f).sum + f a = (l.map f).sum + f b := by
  induction l generalizing k with
  | nil => cases hk
  | cons x l ih =>
      cases k with
      | zero =>
          cases hk
          simp only [List.set_cons_zero, List.map_cons, List.sum_cons]
          omega
      | succ k =>
          have hrest := ih hk
          simp only [List.set_cons_succ, List.map_cons, List.sum_cons]
          omega

namespace Sys

variable {env : Env} {s s' : Sys}

theorem serverStep_left {fails : Bool} (hstep : s.serverStep fails = .ok s') :
    s'.left env < s.left env := by
  rw [serverStep] at hstep
  cases hserver : s.server with
  | start =>
      rw [hserver] at hstep
      cases fails with
      | true =>
          cases hstep
          simp only [left, requestsPart, clientPart, hserver, serverLeft]
          omega
      | false =>
          cases hstep
          simp only [left, requestsPart, clientPart, hserver, serverLeft, Option.getD_some,
            List.map_nil, List.sum_nil]
          omega
  | receive =>
      rw [hserver] at hstep
      simp only at hstep
      cases fails with
      | true =>
          cases hstep
          simp only [left, requestsPart, clientPart, hserver, serverLeft]
          omega
      | false =>
          rw [if_neg Bool.false_ne_true] at hstep
          cases hqueue : s.serverQueue with
          | none =>
              rw [hqueue] at hstep
              cases hstep
              simp only [left, requestsPart, clientPart, hserver, hqueue, serverLeft]
              omega
          | some queue =>
              rw [hqueue] at hstep
              cases queue with
              | nil => cases hstep
              | cons req rest =>
                  cases hstep
                  simp only [left, requestsPart, clientPart, hserver, hqueue, serverLeft,
                    Option.getD_some, List.map_cons, List.sum_cons]
                  omega
  | fork req =>
      rw [hserver] at hstep
      cases fails with
      | true =>
          cases hstep
          simp only [left, requestsPart, clientPart, hserver, serverLeft, requestLeft]
          omega
      | false =>
          cases hstep
          simp only [left, requestsPart, clientPart, hserver, serverLeft, requestLeft, childPart,
            childLeft, List.map_append, List.sum_append, List.map_cons, List.map_nil,
            List.sum_cons, List.sum_nil]
          omega
  | stopping =>
      rw [hserver] at hstep
      cases hstep
      simp only [left, requestsPart, clientPart, hserver, serverLeft, Option.getD_none,
        List.map_nil, List.sum_nil]
      omega
  | exited =>
      rw [hserver] at hstep
      cases hstep

/-- A client goes on, with its queue and that of the server. -/
theorem left_client {c : Nat} (hc : c < env.numClients) (hserver : s'.server = s.server)
    (hchildren : s'.children = s.children)
    (hother : ∀ c', c' ≠ c → s'.clients c' = s.clients c' ∧ s'.queues c' = s.queues c')
    (hless : requestsPart env s' + clientPart env s' c < requestsPart env s + clientPart env s c) :
    s'.left env < s.left env := by
  have hsum := sum_range_update (clientPart env s) (clientPart env s') (fun c' hc' => by
    rw [clientPart, clientPart, (hother c' hc').1, (hother c' hc').2]) (.inl hc)
  rw [left, left, hserver, hchildren]
  omega

theorem left_setPc {c : Nat} (hc : c < env.numClients) {pc : ClientPc}
    (hless : ∀ n, clientLeft n pc < clientLeft n (s.clients c).pc) :
    (s.setPc c pc).left env < s.left env := by
  apply left_client hc
  · rfl
  · rfl
  · exact fun c' hc' => ⟨Function.update_of_ne hc' .., rfl⟩
  · have hpart : clientPart env (s.setPc c pc) c
        = clientLeft (env.size (s.clients c).pathname) pc + ((s.queues c).getD []).length := by
      simp only [clientPart, setPc, Function.update_self]
    rw [hpart, clientPart]
    exact Nat.add_lt_add_left (Nat.add_lt_add_right (hless _) _) _

theorem left_received {c : Nat} (hc : c < env.numClients) {pc : ClientPc} {msg : ResponseMsg}
    {rest : List ResponseMsg} (hqueue : s.queues c = some (msg :: rest))
    (hle : ∀ n, clientLeft n pc ≤ clientLeft n (s.clients c).pc) :
    (s.received c msg rest pc).left env < s.left env := by
  apply left_client hc
  · rfl
  · rfl
  · exact fun c' hc' => ⟨Function.update_of_ne hc' .., Function.update_of_ne hc' ..⟩
  · have hpart : clientPart env (s.received c msg rest pc) c
        = clientLeft (env.size (s.clients c).pathname) pc + rest.length := by
      simp only [clientPart, received, Function.update_self, Option.getD_some]
    have hle := hle (env.size (s.clients c).pathname)
    rw [hpart, clientPart, hqueue, Option.getD_some, List.length_cons]
    show requestsPart env s + _ < _
    omega

theorem clientStep_left {c : Nat} (hc : c < env.numClients) {fails : Bool}
    (hstep : s.clientStep env c fails = .ok s') : s'.left env < s.left env := by
  rw [clientStep] at hstep
  cases hpc : (s.clients c).pc with
  | start =>
      rw [hpc] at hstep
      simp only at hstep
      have hless : ∀ pc, (∀ n, clientLeft n pc < requestLeft n + 5) →
          (s.setPc c pc).left env < s.left env := fun pc h =>
        left_setPc hc fun n => by rw [hpc]; exact h n
      split at hstep
      · cases hstep
        exact hless _ fun n => Nat.succ_pos _
      · split at hstep
        · cases hstep
          exact hless _ fun n => Nat.succ_pos _
        · cases hstep
          exact hless _ fun n => Nat.lt_succ_self _
  | getQueue =>
      rw [hpc] at hstep
      simp only at hstep
      split at hstep
      · cases hstep
        exact left_setPc hc fun n => by rw [hpc]; exact Nat.succ_pos _
      · cases hstep
        apply left_client hc
        · rfl
        · rfl
        · exact fun c' hc' => ⟨Function.update_of_ne hc' .., Function.update_of_ne hc' ..⟩
        · rw [clientPart, clientPart, hpc]
          simp only [setPc, Function.update_self, requestsPart, clientLeft, Option.getD_some,
            List.length_nil]
          omega
  | sendRequest =>
      rw [hpc] at hstep
      simp only at hstep
      split at hstep
      · cases hstep
        exact left_setPc hc fun n => by rw [hpc]; exact Nat.succ_lt_succ (Nat.succ_pos _)
      · cases hstep
      · next queue hsend =>
          cases hstep
          obtain ⟨old, hold, rfl⟩ := msgsnd_sent hsend
          apply left_client hc
          · rfl
          · rfl
          · exact fun c' hc' => ⟨Function.update_of_ne hc' .., rfl⟩
          · rw [clientPart, clientPart, hpc]
            simp only [setPc, Function.update_self, requestsPart, hold, clientLeft,
              Option.getD_some, List.map_append, List.map_cons, List.map_nil, List.sum_append,
              List.sum_cons, List.sum_nil]
            omega
  | receiveFirst =>
      rw [hpc] at hstep
      simp only at hstep
      split at hstep
      · cases hstep
        exact left_setPc hc fun n => by rw [hpc]; exact Nat.lt_succ_self 1
      · split at hstep
        · cases hstep
          exact left_setPc hc fun n => by rw [hpc]; exact Nat.lt_succ_self 1
        · cases hstep
        · next msg rest hqueue =>
            split at hstep
            · cases hstep
              exact left_received hc hqueue fun n => by rw [hpc]; exact Nat.le_succ 1
            · cases hstep
              exact left_received hc hqueue fun n => by rw [hpc]; exact Nat.le_refl 2
            · cases hstep
              exact left_received hc hqueue fun n => by rw [hpc]; exact Nat.le_succ 1
  | receiveNext totBytes numMsgs =>
      rw [hpc] at hstep
      simp only at hstep
      split at hstep
      · cases hstep
        exact left_setPc hc fun n => by rw [hpc]; exact Nat.lt_succ_self 1
      · split at hstep
        · cases hstep
          exact left_setPc hc fun n => by rw [hpc]; exact Nat.lt_succ_self 1
        · cases hstep
        · next msg rest hqueue =>
            split at hstep
            · cases hstep
              exact left_received hc hqueue fun n => by rw [hpc]; exact Nat.le_refl 2
            · cases hstep
              exact left_received hc hqueue fun n => by rw [hpc]; exact Nat.le_succ 1
  | exiting result =>
      rw [hpc] at hstep
      cases hstep
      apply left_client hc
      · rfl
      · rfl
      · exact fun c' hc' => ⟨Function.update_of_ne hc' .., Function.update_of_ne hc' ..⟩
      · rw [clientPart, clientPart, hpc]
        simp only [setPc, Function.update_self, requestsPart, clientLeft, Option.getD_none,
          List.length_nil]
        omega
  | exited result =>
      rw [hpc] at hstep
      cases hstep

/-- A child goes on without a message. -/
theorem left_childPc {k : Nat} {ch ch' : Child} (hk : s.children[k]? = some ch)
    (hless : childPart env ch' < childPart env ch) :
    Sys.left env { s with children := s.children.set k ch' } < s.left env := by
  have hsum := sum_map_set (childPart env) (b := ch') hk
  simp only [left, requestsPart, clientPart]
  omega

/-- A child sends a message. -/
theorem left_childSend {k : Nat} {ch ch' : Child} (hk : s.children[k]? = some ch)
    {msg : ResponseMsg} {fails : Bool} {queue : List ResponseMsg}
    (hsend : s.send env ch msg fails = .sent queue)
    (hless : childPart env ch' + 1 < childPart env ch) :
    Sys.left env { s.deliver ch.req.clientId msg queue with children := s.children.set k ch' }
      < s.left env := by
  obtain ⟨old, hold, rfl⟩ := msgsnd_sent hsend
  have hpart : clientPart env (s.deliver ch.req.clientId msg (old ++ [msg])) ch.req.clientId
      = clientPart env s ch.req.clientId + 1 := by
    simp only [clientPart, deliver, Function.update_self, hold, Option.getD_some,
      List.length_append, List.length_singleton]
    omega
  have hother : ∀ c', c' ≠ ch.req.clientId →
      clientPart env (s.deliver ch.req.clientId msg (old ++ [msg])) c' = clientPart env s c' := by
    intro c' hc'
    simp only [clientPart, deliver, Function.update_of_ne hc']
  have hclients : _ ≤ _ := sum_range_update _ _ hother (n := env.numClients) (.inr (by omega))
  have hsum := sum_map_set (childPart env) (b := ch') hk
  have hrequests : requestsPart env (s.deliver ch.req.clientId msg (old ++ [msg]))
      = requestsPart env s := rfl
  have hleft : Sys.left env { s.deliver ch.req.clientId msg (old ++ [msg]) with
        children := s.children.set k ch' }
      = serverLeft env s.server + requestsPart env s
        + ∑ c ∈ Finset.range env.numClients,
            clientPart env (s.deliver ch.req.clientId msg (old ++ [msg])) c
        + ((s.children.set k ch').map (childPart env)).sum := rfl
  rw [hleft, left]
  omega

theorem childStep_left {k : Nat} {ch ch' : Child} (hk : s.children[k]? = some ch) {fails : Bool}
    {count : Nat} (hstep : s.childStep env ch fails count = .ok (s', ch')) :
    Sys.left env { s' with children := s'.children.set k ch' } < s.left env := by
  rw [childStep] at hstep
  cases hpc : ch.pc with
  | opening =>
      rw [hpc] at hstep
      simp only at hstep
      split at hstep
      · cases hstep
        apply left_childPc hk
        simp only [childPart, hpc, childLeft]
        omega
      · cases hstep
        apply left_childPc hk
        simp only [childPart, hpc, childLeft]
        omega
  | reading =>
      rw [hpc] at hstep
      simp only at hstep
      split at hstep
      · cases hstep
        apply left_childPc hk
        simp only [childPart, hpc, childLeft]
        omega
      · split at hstep
        · cases hstep
          apply left_childPc hk
          simp only [childPart, hpc, childLeft]
          omega
        · next b bs hread =>
            cases hstep
            apply left_childPc hk
            have hlen := congrArg List.length hread
            rw [List.length_take, List.length_drop, List.length_cons] at hlen
            simp only [childPart, hpc, childLeft, Env.size, List.length_cons]
            omega
  | sending data =>
      rw [hpc] at hstep
      simp only at hstep
      split at hstep
      · cases hstep
        apply left_childPc hk
        simp only [childPart, hpc, childLeft]
        omega
      · cases hstep
      · next queue hsend =>
          cases hstep
          apply left_childSend hk hsend
          simp only [childPart, hpc, childLeft]
          omega
  | couldntOpen | ending =>
      rw [hpc] at hstep
      simp only at hstep
      split at hstep
      · cases hstep
        apply left_childPc hk
        simp only [childPart, hpc, childLeft]
        omega
      · cases hstep
      · next queue hsend =>
          cases hstep
          apply left_childSend hk hsend
          simp only [childPart, hpc, childLeft]
          omega
  | exited =>
      rw [hpc] at hstep
      cases hstep

theorem step_left {e : Event} (hstep : s.step env e = .ok s') : s'.left env < s.left env := by
  cases e with
  | server fails => exact serverStep_left hstep
  | client c fails =>
      rw [step] at hstep
      split at hstep
      · next hc => exact clientStep_left hc hstep
      · cases hstep
  | child k fails count =>
      rw [step] at hstep
      cases hk : s.children[k]? with
      | none =>
          rw [hk] at hstep
          cases hstep
      | some ch =>
          rw [hk] at hstep
          simp only at hstep
          cases hch : s.childStep env ch fails count with
          | error e =>
              rw [hch] at hstep
              cases hstep
          | ok r =>
              rw [hch] at hstep
              cases hstep
              exact childStep_left hk hch

/-- A run takes a call from what is left with every event. -/
theorem run_left {es : List Event} (hrun : runSteps (step env) s es = .ok s') :
    es.length + s'.left env ≤ s.left env := by
  induction es generalizing s with
  | nil =>
      cases hrun
      exact Nat.le_of_eq (Nat.zero_add _)
  | cons e es ih =>
      rw [runSteps] at hrun
      cases hone : s.step env e with
      | error err =>
          rw [hone] at hrun
          cases hrun
      | ok t =>
          rw [hone] at hrun
          have hrest := ih hrun
          have hless := step_left hone
          rw [List.length_cons]
          omega

end Sys

-- ============================================================================
-- Where the calls stop
-- ============================================================================

namespace Inv

variable {env : Env} {argv : Nat → Path} {s : Sys}

/-- No call that does not fail can be made. -/
def Stopped (env : Env) (s : Sys) : Prop :=
  ∀ e : Event, e.fails = false → ∃ err, s.step env e = .error err

/-- The server waits for a request. -/
theorem server_waits (h : Inv env argv True s) (hstop : Stopped env s) : s.waiting = [] := by
  obtain ⟨err, herr⟩ := hstop (.server false) rfl
  rw [Sys.step, Sys.serverStep] at herr
  cases hserver : s.server with
  | start | stopping =>
      rw [hserver] at herr
      cases herr
  | fork req =>
      rw [hserver] at herr
      cases herr
  | exited => exact absurd hserver (h.running trivial).2
  | receive =>
      rw [hserver] at herr
      rw [Sys.waiting, hserver]
      cases hqueue : s.serverQueue with
      | none => rfl
      | some queue =>
          rw [hqueue] at herr
          cases queue with
          | nil => rfl
          | cons req rest => cases herr

/-- A client that has a message can go on. -/
theorem queue_empty (h : Inv env argv True s) (hstop : Stopped env s) {c : Nat}
    (hc : c < env.numClients) {queue : List ResponseMsg} (hqueue : s.queues c = some queue) :
    queue = [] := by
  obtain ⟨err, herr⟩ := hstop (.client c false) rfl
  rw [Sys.step, if_pos hc, Sys.clientStep] at herr
  have hlistens := h.listens c
  rw [Listens, hqueue] at hlistens
  cases hpc : (s.clients c).pc with
  | start | getQueue =>
      rw [hpc] at hlistens
      cases hlistens.2.1
  | sendRequest =>
      rw [hpc] at hlistens
      exact Option.some.inj hlistens.2.1
  | receiveFirst | receiveNext =>
      cases queue with
      | nil => rfl
      | cons msg rest =>
          rw [hpc, hqueue] at herr
          simp only at herr
          rw [if_neg Bool.false_ne_true] at herr
          split at herr <;> cases herr
  | exiting result =>
      rw [hpc] at herr
      cases herr
  | exited result =>
      rw [hpc] at hlistens
      cases hlistens.1

/-- A child does not wait, for the queue of its client is empty. -/
theorem not_asleep (h : Inv env argv True s) (hstop : Stopped env s)
    (hresp : respMsgSize ≤ env.qbytes) {ch : Child} (hch : ch ∈ s.children) {msg : ResponseMsg}
    (hlen : msg.data.length ≤ respMsgSize) : s.send env ch msg false ≠ .asleep := by
  intro hasleep
  obtain ⟨old, hold, hfull⟩ := msgsnd_asleep hasleep
  have hmem : ch.req ∈ s.requests := List.mem_append_right _ (List.mem_map_of_mem hch)
  obtain rfl := h.queue_empty hstop (h.known ch.req hmem) hold
  apply hfull
  constructor
  · show 0 + msg.data.length ≤ env.qbytes
    omega
  · show 0 + 1 ≤ env.qbytes
    rw [respMsgSize] at hresp
    omega

theorem child_exited (h : Inv env argv True s) (hstop : Stopped env s)
    (hresp : respMsgSize ≤ env.qbytes) {ch : Child} (hch : ch ∈ s.children) :
    ch.pc = .exited := by
  obtain ⟨k, hk⟩ := List.mem_iff_getElem?.mp hch
  obtain ⟨err, herr⟩ := hstop (.child k false 0) rfl
  rw [Sys.step, hk] at herr
  simp only at herr
  have hstuck : ∀ {r : Sys × Child}, s.childStep env ch false 0 ≠ .ok r := by
    intro r hr
    rw [hr] at herr
    cases herr
  rw [Sys.childStep] at hstuck
  have htalks := h.talks ch hch
  rw [Talks] at htalks
  cases hpc : ch.pc with
  | exited => rfl
  | opening =>
      rw [hpc] at hstuck
      simp only at hstuck
      split at hstuck <;> exact absurd rfl hstuck
  | reading =>
      rw [hpc] at hstuck
      simp only at hstuck
      rw [if_neg Bool.false_ne_true] at hstuck
      split at hstuck <;> exact absurd rfl hstuck
  | couldntOpen =>
      rw [hpc] at hstuck
      simp only at hstuck
      split at hstuck
      · exact absurd rfl hstuck
      · next hasleep => exact absurd hasleep (h.not_asleep hstop hresp hch (by decide))
      · exact absurd rfl hstuck
  | sending data =>
      rw [hpc] at hstuck htalks
      simp only at hstuck
      obtain ⟨content, -, -, -, hlen⟩ := htalks
      split at hstuck
      · exact absurd rfl hstuck
      · next hasleep => exact absurd hasleep (h.not_asleep hstop hresp hch hlen)
      · exact absurd rfl hstuck
  | ending =>
      rw [hpc] at hstuck
      simp only at hstuck
      split at hstuck
      · exact absurd rfl hstuck
      · next hasleep => exact absurd hasleep (h.not_asleep hstop hresp hch (Nat.zero_le _))
      · exact absurd rfl hstuck

/-- Every request has been answered to its end. -/
theorem exists_answer (h : Inv env argv True s) (hstop : Stopped env s)
    (hresp : respMsgSize ≤ env.qbytes) {c : Nat} (hasked : (s.clients c).pc.Asked)
    (hqueue : s.queues c ≠ none) : ∃ m ∈ s.delivered c, m.mtype ≠ .data := by
  rcases h.served c hasked with hmem | ⟨-, hstopped⟩
  · rw [Sys.requests, h.server_waits hstop, List.nil_append, List.map_map] at hmem
    obtain ⟨ch, hch, rfl⟩ := List.mem_map.mp hmem
    have htalks := h.talks ch hch
    rw [Talks, h.child_exited hstop hresp hch] at htalks
    rcases htalks with ⟨-, -, hnone⟩ | ⟨content, before, -, hdelivered, -⟩ | ⟨hdelivered, -⟩
    · exact absurd (hnone trivial) hqueue
    · refine ⟨{ mtype := .ending, data := [] }, ?_, ending_ne_data⟩
      rw [Function.comp_apply, hdelivered]
      exact List.mem_append_right _ (List.mem_singleton_self _)
    · refine ⟨{ mtype := .failure, data := couldntOpen }, ?_, failure_ne_data⟩
      rw [Function.comp_apply, hdelivered]
      exact List.mem_singleton_self _
  · rcases hstopped with hstopped | hstopped
    · exact absurd hstopped (h.running trivial).1
    · exact absurd hstopped (h.running trivial).2

theorem client_exited (h : Inv env argv True s) (hstop : Stopped env s)
    (hresp : respMsgSize ≤ env.qbytes) {c : Nat} (hc : c < env.numClients) :
    ∃ result, (s.clients c).pc = .exited result ∧ result.Fine := by
  obtain ⟨err, herr⟩ := hstop (.client c false) rfl
  rw [Sys.step, if_pos hc, Sys.clientStep] at herr
  have hlistens := h.listens c
  rw [Listens] at hlistens
  cases hpc : (s.clients c).pc with
  | start =>
      rw [hpc] at herr
      simp only at herr
      split at herr
      · cases herr
      · split at herr <;> cases herr
  | getQueue | exiting =>
      rw [hpc] at herr
      cases herr
  | sendRequest =>
      rw [hpc] at herr
      simp only at herr
      split at herr
      · cases herr
      · next hasleep =>
          obtain ⟨old, hold, hfull⟩ := msgsnd_asleep hasleep
          have hempty := h.server_waits hstop
          rw [Sys.waiting, hold, List.append_eq_nil_iff, Option.getD_some] at hempty
          rw [hempty.2] at hfull
          apply absurd _ hfull
          constructor
          · show 0 + reqMsgSize ≤ env.qbytes
            rw [reqMsgSize, pathMax]
            rw [respMsgSize] at hresp
            omega
          · show 0 + 1 ≤ env.qbytes
            rw [respMsgSize] at hresp
            omega
      · cases herr
  | receiveFirst =>
      rw [hpc] at hlistens
      have hempty := h.queue_empty hstop hc hlistens.2
      obtain ⟨m, hm, -⟩ := h.exists_answer hstop hresp (by rw [hpc]; trivial)
        (by rw [hlistens.2]; exact Option.some_ne_none _)
      rw [hempty] at hm
      cases hm
  | receiveNext totBytes numMsgs =>
      rw [hpc] at hlistens
      obtain ⟨⟨rest, hqueue, hdelivered⟩, hall, -⟩ := hlistens
      obtain rfl := h.queue_empty hstop hc hqueue
      obtain ⟨m, hm, hmtype⟩ := h.exists_answer hstop hresp (by rw [hpc]; trivial)
        (by rw [hqueue]; exact Option.some_ne_none _)
      rw [hdelivered, List.append_nil] at hm
      exact absurd (hall m hm) hmtype
  | exited result =>
      have hfine := h.fine trivial c
      rw [hpc] at hfine
      exact ⟨result, rfl, hfine⟩

end Inv

theorem left_start (env : Env) (argv : Nat → Path) :
    Sys.left env (.start argv)
      = 3 + ∑ c ∈ Finset.range env.numClients, (3 * env.size (argv c) + 12) := by
  rw [Sys.left]
  rfl

/-- **Where no call fails for a reason of its own and a queue holds a full message:** the number of
    calls is bounded by the sizes of the files; a client that has printed its totals has its file,
    byte for byte; one that was refused has asked for a file that is not there; and where no call
    can be made any more, every client has exited: with its file, refused, or before it asked. -/
theorem fileServer_complete {env : Env} {argv : Nat → Path} {es : List Event} {s : Sys}
    (hresp : respMsgSize ≤ env.qbytes) (hfails : ∀ e ∈ es, e.fails = false)
    (hrun : runSteps (Sys.step env) (.start argv) es = .ok s) :
    es.length ≤ 3 + ∑ c ∈ Finset.range env.numClients, (3 * env.size (argv c) + 12) ∧
      (∀ c totBytes numMsgs, (s.clients c).pc.result = some (.received totBytes numMsgs) →
        env.files (argv c) = some (fileBytes (s.clients c).received)) ∧
      (∀ c, (s.clients c).pc.result = some .refused → env.files (argv c) = none) ∧
      ((∀ e : Event, e.fails = false → ∃ err, s.step env e = .error err) →
        ∀ c < env.numClients, ∃ result, (s.clients c).pc = .exited result ∧ result.Fine) := by
  have h : Inv env argv True s := Inv.of_run (fun _ => hfails) hrun
  have hbound := Sys.run_left hrun
  rw [left_start] at hbound
  constructor
  · omega
  · constructor
    · intro c totBytes numMsgs hpc
      obtain ⟨content, hfile, -, hcontent, -, -⟩ := h.received_result hpc
      rw [hfile, hcontent trivial]
    · constructor
      · exact fun c hpc => h.refused_result hpc trivial
      · exact fun hstop c hc => h.client_exited hstop hresp hc

theorem fileServer_complete_oneFile :
    respMsgSize ≤ oneFile.qbytes ∧ oneFileSchedule.length = 14 ∧
      oneFileSchedule.length
        ≤ 3 + ∑ _c ∈ Finset.range oneFile.numClients, (3 * oneFile.size [65] + 12) ∧
      (∀ c totBytes numMsgs,
        (oneFileEnd.clients c).pc.result = some (.received totBytes numMsgs) →
          oneFile.files [65] = some (fileBytes (oneFileEnd.clients c).received)) ∧
      (∀ c, (oneFileEnd.clients c).pc.result = some .refused → oneFile.files [65] = none) ∧
      ((∀ e : Event, e.fails = false → ∃ err, oneFileEnd.step oneFile e = .error err) →
        ∀ c < oneFile.numClients,
          ∃ result, (oneFileEnd.clients c).pc = .exited result ∧ result.Fine) := by
  have hresp : respMsgSize ≤ oneFile.qbytes := Nat.le_refl _
  have hfails : ∀ e ∈ oneFileSchedule, e.fails = false := by decide
  have hrun : runSteps (Sys.step oneFile) (.start fun _ => [65]) oneFileSchedule
      = .ok oneFileEnd := rfl
  exact ⟨hresp, rfl, fileServer_complete hresp hfails hrun⟩

end LinuxCodeDemos.SvMsg

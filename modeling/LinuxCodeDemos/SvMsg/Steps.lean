/-
  LinuxCodeDemos.SvMsg.Steps

  The invariant of the file server, its children and its clients, and that every call keeps it.

  A request is in the queue of the server, with the server or with one child (`Sys.requests`), so
  no two processes ever write to one client.  The rest ties each client to what was put into its
  queue, and each child to what it has put there.
-/

import LinuxCodeDemos.SvMsg.Answers

namespace LinuxCodeDemos.SvMsg

open Lib

-- ============================================================================
-- The invariant
-- ============================================================================

namespace Sys

/-- The requests that no child has yet. -/
def waiting (s : Sys) : List RequestMsg :=
  (match s.server with | .fork req => [req] | _ => []) ++ s.serverQueue.getD []

/-- All requests, those that are served included. -/
def requests (s : Sys) : List RequestMsg := s.waiting ++ s.children.map Child.req

end Sys

structure Inv (env : Env) (argv : Nat → Path) (calm : Prop) (s : Sys) : Prop where
  nodup : (s.requests.map RequestMsg.clientId).Nodup
  asked : ∀ req ∈ s.requests,
    req.pathname = argv req.clientId ∧ (s.clients req.clientId).pc.Asked
  known : ∀ req ∈ s.requests, req.clientId < env.numClients
  waiting : ∀ req ∈ s.waiting, s.delivered req.clientId = []
  talks : ∀ ch ∈ s.children,
    Talks env calm ch (s.queues ch.req.clientId) (s.delivered ch.req.clientId)
  served : ∀ c, (s.clients c).pc.Asked →
    c ∈ s.requests.map RequestMsg.clientId ∨
      s.delivered c = [] ∧ (s.server = .stopping ∨ s.server = .exited)
  listens : ∀ c, Listens (s.clients c) (s.queues c) (s.delivered c)
  argv : ∀ c, (s.clients c).pathname = argv c
  open_queue : s.serverQueue = none → s.server = .start ∨ s.server = .exited
  running : calm → s.server ≠ .stopping ∧ s.server ≠ .exited
  not_started : s.server = .start → s.serverQueue = none
  begun : ∀ c, (s.clients c).pc.Begun → s.server ≠ .start
  fine : calm → ∀ c, (s.clients c).pc.Fine

theorem inv_start (env : Env) (argv : Nat → Path) (calm : Prop) :
    Inv env argv calm (.start argv) where
  nodup := List.nodup_nil
  asked := fun req h => by cases h
  known := fun req h => by cases h
  waiting := fun req h => by cases h
  talks := fun ch h => by cases h
  served := fun c h => h.elim
  listens := fun c => ⟨rfl, rfl, rfl⟩
  argv := fun c => rfl
  open_queue := fun _ => .inl rfl
  running := fun _ => ⟨(fun h => by cases h), fun h => by cases h⟩
  not_started := fun _ => rfl
  begun := fun c h => h.elim
  fine := fun _ c => trivial

/-- One client changes. -/
theorem forall_update {clients : Nat → Client} {c : Nat} {cl : Client} (P : Nat → Client → Prop)
    (hcl : P c cl) (h : ∀ c', P c' (clients c')) :
    ∀ c', P c' (Function.update clients c cl c') :=
  (Function.forall_update_iff clients P).mpr ⟨hcl, fun c' _ => h c'⟩

namespace Inv

variable {env : Env} {argv : Nat → Path} {calm : Prop} {s : Sys}

theorem not_calm {fails : Bool} (hcalm : calm → fails = false) (hfails : fails = true) :
    ¬ calm := by
  intro hc
  rw [hcalm hc] at hfails
  cases hfails

/-- A client changes, and its queue. -/
theorem client (h : Inv env argv calm s) (c : Nat) {pc : ClientPc} {received : List ResponseMsg}
    {queue : Option (List ResponseMsg)} (hasked : pc.Asked ↔ (s.clients c).pc.Asked)
    (hqueue : (s.clients c).pc.Asked → s.queues c = none → queue = none)
    (hlistens : Listens { s.clients c with pc, received } queue (s.delivered c))
    (hbegun : pc.Begun → s.server ≠ .start) (hfine : calm → pc.Fine) :
    Inv env argv calm { s with
      clients := Function.update s.clients c { s.clients c with pc, received }
      queues := Function.update s.queues c queue } := by
  have hpc : ∀ c', (Function.update s.clients c { s.clients c with pc, received } c').pc.Asked ↔
      (s.clients c').pc.Asked := by
    intro c'
    by_cases hc : c' = c
    · subst hc
      rw [Function.update_self]
      exact hasked
    · rw [Function.update_of_ne hc]
  constructor
  case nodup => exact h.nodup
  case asked => exact fun req hreq => ⟨(h.asked req hreq).1, (hpc _).mpr (h.asked req hreq).2⟩
  case known => exact h.known
  case waiting => exact h.waiting
  case talks =>
    intro ch hch
    apply (h.talks ch hch).queue
    intro hnone
    by_cases hc : ch.req.clientId = c
    · subst hc
      have hmem : ch.req ∈ s.requests := List.mem_append_right _ (List.mem_map_of_mem hch)
      show Function.update s.queues _ queue _ = none
      rw [Function.update_self]
      exact hqueue (h.asked ch.req hmem).2 hnone
    · show Function.update s.queues c queue _ = none
      rw [Function.update_of_ne hc]
      exact hnone
  case served => exact fun c' hc' => h.served c' ((hpc c').mp hc')
  case listens =>
    intro c'
    show Listens (Function.update s.clients c _ c') (Function.update s.queues c queue c') _
    by_cases hc : c' = c
    · subst hc
      rw [Function.update_self, Function.update_self]
      exact hlistens
    · rw [Function.update_of_ne hc, Function.update_of_ne hc]
      exact h.listens c'
  case argv =>
    exact forall_update (fun c' cl => cl.pathname = argv c') (h.argv c) h.argv
  case open_queue => exact h.open_queue
  case running => exact h.running
  case not_started => exact h.not_started
  case begun =>
    exact forall_update (fun _ cl => cl.pc.Begun → s.server ≠ .start) hbegun h.begun
  case fine =>
    intro hcalm
    exact forall_update (fun _ cl => cl.pc.Fine) (hfine hcalm) (h.fine hcalm)

/-- Only `pc` changes. -/
theorem setPc (h : Inv env argv calm s) (c : Nat) {pc : ClientPc}
    (hasked : pc.Asked ↔ (s.clients c).pc.Asked)
    (hlistens : Listens { s.clients c with pc } (s.queues c) (s.delivered c))
    (hbegun : pc.Begun → s.server ≠ .start) (hfine : calm → pc.Fine) :
    Inv env argv calm (s.setPc c pc) := by
  have h' := h.client c hasked (fun _ h => h) hlistens hbegun hfine
  rw [Function.update_eq_self] at h'
  exact h'

/-- The client takes a message. -/
theorem received (h : Inv env argv calm s) {c : Nat} {pc : ClientPc} {msg : ResponseMsg}
    {rest : List ResponseMsg} (hold : (s.clients c).pc.Asked) (hnew : pc.Asked)
    (hlistens : Listens
      { s.clients c with pc, received := (s.clients c).received ++ [msg] } (some rest)
      (s.delivered c))
    (hbegun : ¬ pc.Begun) (hfine : pc.Fine) (hqueue : s.queues c ≠ none) :
    Inv env argv calm (s.received c msg rest pc) :=
  h.client c (iff_of_true hnew hold) (fun _ hnone => absurd hnone hqueue) hlistens
    (fun h => absurd h hbegun) fun _ => hfine

/-- The request goes into the queue of the server. -/
theorem sendRequest (h : Inv env argv calm s) {c : Nat} (hc : c < env.numClients)
    (hpc : (s.clients c).pc = .sendRequest) {queue : List RequestMsg}
    (hqueue : s.serverQueue = some queue) :
    Inv env argv calm { s.setPc c .receiveFirst with
      serverQueue := some (queue ++ [{ clientId := c, pathname := (s.clients c).pathname }]) } := by
  have hlistens := h.listens c
  rw [Listens, hpc] at hlistens
  obtain ⟨hreceived, hown, hdelivered⟩ := hlistens
  have hfresh : c ∉ s.requests.map RequestMsg.clientId := by
    intro hmem
    obtain ⟨req, hreq, hid⟩ := List.mem_map.mp hmem
    have hasked := (h.asked req hreq).2
    rw [hid, hpc] at hasked
    exact hasked
  have hself : ∀ c', (Function.update s.clients c
      { s.clients c with pc := .receiveFirst } c').pc.Asked ↔ (s.clients c').pc.Asked ∨ c' = c := by
    intro c'
    by_cases hc : c' = c
    · subst hc
      rw [Function.update_self]
      exact iff_of_true trivial (.inr rfl)
    · rw [Function.update_of_ne hc]
      exact ⟨.inl, fun h => h.resolve_right hc⟩
  have hwaiting : Sys.waiting { s.setPc c .receiveFirst with
      serverQueue := some (queue ++ [{ clientId := c, pathname := (s.clients c).pathname }]) }
        = s.waiting ++ [{ clientId := c, pathname := (s.clients c).pathname }] := by
    rw [Sys.waiting, Sys.waiting, hqueue, List.append_assoc]
    rfl
  have hperm : (Sys.requests { s.setPc c .receiveFirst with
      serverQueue := some (queue ++ [{ clientId := c, pathname := (s.clients c).pathname }]) }).Perm
        ({ clientId := c, pathname := (s.clients c).pathname } :: s.requests) := by
    rw [Sys.requests, hwaiting, Sys.requests, List.append_assoc]
    exact List.perm_middle
  constructor
  case nodup =>
    apply (hperm.map RequestMsg.clientId).nodup_iff.mpr
    exact List.nodup_cons.mpr ⟨hfresh, h.nodup⟩
  case asked =>
    intro req hreq
    rcases List.mem_cons.mp (hperm.subset hreq) with rfl | hreq
    · exact ⟨h.argv c, (hself c).mpr (.inr rfl)⟩
    · exact ⟨(h.asked req hreq).1, (hself _).mpr (.inl (h.asked req hreq).2)⟩
  case known =>
    intro req hreq
    rcases List.mem_cons.mp (hperm.subset hreq) with rfl | hreq
    · exact hc
    · exact h.known req hreq
  case waiting =>
    intro req hreq
    rw [hwaiting] at hreq
    rcases List.mem_append.mp hreq with hreq | hreq
    · exact h.waiting req hreq
    · rw [List.mem_singleton.mp hreq]
      exact hdelivered
  case talks => exact h.talks
  case served =>
    intro c' hc'
    rcases (hself c').mp hc' with hold | rfl
    · apply (h.served c' hold).imp_left
      intro hmem
      exact (hperm.map RequestMsg.clientId).symm.subset (List.mem_cons_of_mem _ hmem)
    · exact .inl ((hperm.map RequestMsg.clientId).symm.subset (List.mem_cons_self ..))
  case listens =>
    intro c'
    show Listens (Function.update s.clients c _ c') (s.queues c') (s.delivered c')
    by_cases hc : c' = c
    · subst hc
      rw [Function.update_self]
      exact ⟨hreceived, by rw [hown, hdelivered]⟩
    · rw [Function.update_of_ne hc]
      exact h.listens c'
  case argv =>
    exact forall_update (fun c' cl => cl.pathname = argv c') (h.argv c) h.argv
  case open_queue => exact fun hnone => by cases hnone
  case running => exact h.running
  case not_started =>
    intro hstart
    rw [h.not_started hstart] at hqueue
    cases hqueue
  case begun =>
    exact forall_update (fun _ cl => cl.pc.Begun → s.server ≠ .start) False.elim h.begun
  case fine =>
    intro hcalm
    exact forall_update (fun _ cl => cl.pc.Fine) trivial (h.fine hcalm)

/-- The client ends without having asked. -/
theorem exit (h : Inv env argv calm s) {c : Nat} {result : Result}
    (hpc : (s.clients c).pc = .start ∨ (s.clients c).pc = .getQueue)
    (hresult : result = .usage ∨ result = .noServer ∨ result = .noQueue)
    (hfine : calm → result.Fine) : Inv env argv calm (s.setPc c (.exited result)) := by
  have hlistens := h.listens c
  rw [Listens] at hlistens
  have hempty : (s.clients c).received = [] ∧ s.queues c = none ∧ s.delivered c = [] := by
    rcases hpc with hpc | hpc
    · rwa [hpc] at hlistens
    · rwa [hpc] at hlistens
  obtain ⟨hreceived, hown, hdelivered⟩ := hempty
  apply h.setPc
  · rcases hpc with hpc | hpc
    · rw [hpc]
      rcases hresult with rfl | rfl | rfl <;> exact Iff.rfl
    · rw [hpc]
      rcases hresult with rfl | rfl | rfl <;> exact Iff.rfl
  · have hsays : result.Tells (s.clients c).received := by
      rw [hreceived]
      rcases hresult with rfl | rfl | rfl <;> exact rfl
    exact ⟨hown, ⟨[], by rw [hreceived, hdelivered]; rfl⟩, hsays⟩
  · exact fun h => h.elim
  · exact hfine

/-- The client looks for the server. -/
theorem beginStep (h : Inv env argv calm s) {c : Nat} {fails : Bool}
    (hpc : (s.clients c).pc = .start) {s' : Sys} (hstep : s.clientStep env c fails = .ok s') :
    Inv env argv calm s' := by
  have hlistens := h.listens c
  rw [Listens] at hlistens
  rw [Sys.clientStep] at hstep
  rw [hpc] at hstep
  simp only at hstep
  split at hstep
  · cases hstep
    exact h.exit (.inl hpc) (.inl rfl) fun _ => trivial
  · split at hstep
    · cases hstep
      exact h.exit (.inl hpc) (.inr (.inl rfl)) fun _ => trivial
    · next hserver =>
        cases hstep
        rw [not_or] at hserver
        rw [hpc] at hlistens
        apply h.setPc
        · rw [hpc]
          exact Iff.rfl
        · exact hlistens
        · exact fun _ hstart => hserver.2 (h.not_started hstart)
        · exact fun _ => trivial

/-- The client makes its own queue. -/
theorem getQueueStep (h : Inv env argv calm s) {c : Nat} {fails : Bool}
    (hcalm : calm → fails = false)
    (hpc : (s.clients c).pc = .getQueue) {s' : Sys} (hstep : s.clientStep env c fails = .ok s') :
    Inv env argv calm s' := by
  have hlistens := h.listens c
  rw [Listens] at hlistens
  rw [Sys.clientStep] at hstep
  rw [hpc] at hstep
  simp only at hstep
  split at hstep
  · next hfails =>
      cases hstep
      exact h.exit (.inr hpc) (.inr (.inr rfl)) fun hc => absurd hc (not_calm hcalm hfails)
  · cases hstep
    rw [hpc] at hlistens
    obtain ⟨hreceived, hown, hdelivered⟩ := hlistens
    apply h.client
    · rw [hpc]
      exact Iff.rfl
    · intro hasked
      rw [hpc] at hasked
      exact hasked.elim
    · exact ⟨hreceived, rfl, hdelivered⟩
    · exact fun _ => h.begun c (by rw [hpc]; trivial)
    · exact fun _ => trivial

/-- The client asks. -/
theorem sendStep (h : Inv env argv calm s) {c : Nat} (hc : c < env.numClients) {fails : Bool}
    (hcalm : calm → fails = false) (hpc : (s.clients c).pc = .sendRequest) {s' : Sys}
    (hstep : s.clientStep env c fails = .ok s') :
    Inv env argv calm s' := by
  have hlistens := h.listens c
  rw [Listens] at hlistens
  rw [Sys.clientStep] at hstep
  rw [hpc] at hstep
  simp only [msgsnd] at hstep
  have hfailed : s' = s.setPc c (.exiting .notSent) → (calm → False) →
      Inv env argv calm s' := by
    rintro rfl hnot
    rw [hpc] at hlistens
    obtain ⟨hreceived, hown, hdelivered⟩ := hlistens
    apply h.setPc
    · rw [hpc]
      exact Iff.rfl
    · exact ⟨⟨[], hown, by rw [hreceived, hdelivered]; rfl⟩, hreceived⟩
    · exact fun h => h.elim
    · exact fun hc => (hnot hc).elim
  cases hqueue : s.serverQueue with
  | none =>
      rw [hqueue] at hstep
      cases hstep
      refine hfailed rfl fun hc => ?_
      rcases h.open_queue hqueue with hserver | hserver
      · exact h.begun c (by rw [hpc]; trivial) hserver
      · exact (h.running hc).2 hserver
  | some queue =>
      rw [hqueue] at hstep
      simp only at hstep
      cases fails with
      | true =>
          rw [if_pos rfl] at hstep
          cases hstep
          exact hfailed rfl (not_calm hcalm rfl)
      | false =>
          rw [if_neg Bool.false_ne_true] at hstep
          split at hstep
          · next heq =>
              split at heq <;> cases heq
          · cases hstep
          · next queue' heq =>
              split at heq
              · cases heq
                cases hstep
                exact h.sendRequest hc hpc hqueue
              · cases heq

/-- The first answer. -/
theorem receiveFirstStep (h : Inv env argv calm s) {c : Nat} {fails : Bool}
    (hcalm : calm → fails = false)
    (hpc : (s.clients c).pc = .receiveFirst) {s' : Sys}
    (hstep : s.clientStep env c fails = .ok s') :
    Inv env argv calm s' := by
  have hlistens := h.listens c
  rw [Listens] at hlistens
  rw [Sys.clientStep] at hstep
  rw [hpc] at hstep hlistens
  obtain ⟨hreceived, hown⟩ := hlistens
  rw [hown] at hstep
  simp only at hstep
  have hasked : (s.clients c).pc.Asked := by
    rw [hpc]
    trivial
  have hne : s.queues c ≠ none := by
    rw [hown]
    exact Option.some_ne_none _
  cases fails with
  | true =>
      rw [if_pos rfl] at hstep
      cases hstep
      apply h.setPc
      · exact iff_of_true trivial hasked
      · exact ⟨⟨s.delivered c, hown, by rw [hreceived]; rfl⟩, by rw [hreceived]; exact AllData.nil⟩
      · exact fun h => h.elim
      · exact fun hc => (not_calm hcalm rfl hc).elim
  | false =>
      rw [if_neg Bool.false_ne_true] at hstep
      cases hdelivered : s.delivered c with
      | nil =>
          rw [hdelivered] at hstep
          cases hstep
      | cons msg rest =>
          rw [hdelivered] at hstep
          simp only at hstep
          have hall : s.delivered c = (s.clients c).received ++ [msg] ++ rest := by
            rw [hdelivered, hreceived]
            rfl
          have hmsgs : (s.clients c).received ++ [msg] = [msg] := by
            rw [hreceived]
            rfl
          have htexts : msg.data.length = (texts ((s.clients c).received ++ [msg])).length := by
            rw [hmsgs, texts_singleton]
          cases hmtype : msg.mtype with
          | failure =>
              rw [hmtype] at hstep
              cases hstep
              exact h.received hasked trivial ⟨⟨rest, rfl, hall⟩, msg, hmsgs, hmtype⟩ id trivial hne
          | data =>
              rw [hmtype] at hstep
              cases hstep
              apply h.received hasked
              · trivial
              · exact ⟨⟨rest, rfl, hall⟩, by rw [hmsgs]; exact AllData.single hmtype,
                  by rw [hmsgs]; exact List.cons_ne_nil _ _, htexts, by rw [hmsgs]; rfl⟩
              · exact id
              · trivial
              · exact hne
          | ending =>
              rw [hmtype] at hstep
              cases hstep
              apply h.received hasked
              · trivial
              · exact ⟨⟨rest, rfl, hall⟩, [], msg, hmsgs, AllData.nil, hmtype ▸ ending_ne_data,
                      fun _ => hmtype,
                  htexts, by rw [hmsgs]; rfl⟩
              · exact id
              · trivial
              · exact hne

/-- A further answer. -/
theorem receiveNextStep (h : Inv env argv calm s) {c : Nat} {fails : Bool}
    (hcalm : calm → fails = false)
    {totBytes numMsgs : Nat} (hpc : (s.clients c).pc = .receiveNext totBytes numMsgs) {s' : Sys}
    (hstep : s.clientStep env c fails = .ok s') :
    Inv env argv calm s' := by
  have hlistens := h.listens c
  rw [Listens] at hlistens
  rw [Sys.clientStep] at hstep
  rw [hpc] at hstep hlistens
  obtain ⟨⟨queue, hown, hdelivered⟩, hdata, hnonempty, htot, hnum⟩ := hlistens
  rw [hown] at hstep
  simp only at hstep
  have hasked : (s.clients c).pc.Asked := by
    rw [hpc]
    trivial
  have hne : s.queues c ≠ none := by
    rw [hown]
    exact Option.some_ne_none _
  cases fails with
  | true =>
      rw [if_pos rfl] at hstep
      cases hstep
      apply h.setPc
      · exact iff_of_true trivial hasked
      · exact ⟨⟨queue, hown, hdelivered⟩, hdata⟩
      · exact fun h => h.elim
      · exact fun hc => (not_calm hcalm rfl hc).elim
  | false =>
      rw [if_neg Bool.false_ne_true] at hstep
      cases queue with
      | nil => cases hstep
      | cons msg rest =>
          simp only at hstep
          have hall : s.delivered c = (s.clients c).received ++ [msg] ++ rest := by
            rw [hdelivered, List.append_assoc]
            rfl
          have htexts : totBytes + msg.data.length
              = (texts ((s.clients c).received ++ [msg])).length := by
            rw [texts_append, List.length_append, htot, texts_singleton]
          have hcount : addInt numMsgs 1
              = ((s.clients c).received ++ [msg]).length % 2 ^ 32 := by
            rw [addInt, hnum, Nat.mod_add_mod, List.length_append]
            rfl
          have hnext : ∀ result, result = Result.received (totBytes + msg.data.length)
              (addInt numMsgs 1) → msg.mtype ≠ .data →
              Inv env argv calm (s.received c msg rest (.exiting result)) := by
            rintro result rfl hmtype
            apply h.received hasked
            · trivial
            · exact ⟨⟨rest, rfl, hall⟩, (s.clients c).received, msg, rfl, hdata, hmtype,
                fun hnil => absurd hnil hnonempty, htexts, hcount⟩
            · exact id
            · trivial
            · exact hne
          cases hmtype : msg.mtype with
          | failure =>
              rw [hmtype] at hstep
              cases hstep
              exact hnext _ rfl (hmtype ▸ failure_ne_data)
          | data =>
              rw [hmtype] at hstep
              cases hstep
              apply h.received hasked
              · trivial
              · exact ⟨⟨rest, rfl, hall⟩, hdata.append (AllData.single hmtype),
                  List.append_ne_nil_of_right_ne_nil _ (List.cons_ne_nil _ _), htexts, hcount⟩
              · exact id
              · trivial
              · exact hne
          | ending =>
              rw [hmtype] at hstep
              cases hstep
              exact hnext _ rfl (hmtype ▸ ending_ne_data)

/-- `removeQueue`. -/
theorem exitingStep (h : Inv env argv calm s) {c : Nat} {fails : Bool}
    {result : Result} (hpc : (s.clients c).pc = .exiting result) {s' : Sys}
    (hstep : s.clientStep env c fails = .ok s') :
    Inv env argv calm s' := by
  have hlistens := h.listens c
  rw [Listens] at hlistens
  rw [Sys.clientStep] at hstep
  rw [hpc] at hstep
  cases hstep
  rw [hpc] at hlistens
  obtain ⟨⟨rest, -, hdelivered⟩, hsays⟩ := hlistens
  apply h.client
  · rw [hpc]
    exact Iff.rfl
  · exact fun _ _ => rfl
  · exact ⟨rfl, ⟨rest, hdelivered⟩, hsays⟩
  · exact fun h => h.elim
  · intro hc
    have hfine := h.fine hc c
    rwa [hpc] at hfine

theorem clientStep (h : Inv env argv calm s) {c : Nat} (hc : c < env.numClients) {fails : Bool}
    (hcalm : calm → fails = false) {s' : Sys} (hstep : s.clientStep env c fails = .ok s') :
    Inv env argv calm s' := by
  cases hpc : (s.clients c).pc with
  | start => exact h.beginStep hpc hstep
  | getQueue => exact h.getQueueStep hcalm hpc hstep
  | sendRequest => exact h.sendStep hc hcalm hpc hstep
  | receiveFirst => exact h.receiveFirstStep hcalm hpc hstep
  | receiveNext _ _ => exact h.receiveNextStep hcalm hpc hstep
  | exiting _ => exact h.exitingStep hpc hstep
  | exited result =>
      rw [Sys.clientStep, hpc] at hstep
      cases hstep

/-- The server goes on, with its queue and its children. -/
theorem server (h : Inv env argv calm s) {server : ServerPc}
    {serverQueue : Option (List RequestMsg)} {children : List Child}
    (hnodup : ((Sys.requests { s with server, serverQueue, children }).map
      RequestMsg.clientId).Nodup)
    (hwaiting : ∀ req ∈ Sys.waiting { s with server, serverQueue, children }, req ∈ s.waiting)
    (hchildren : ∀ ch ∈ children,
      ch ∈ s.children ∨ ch.pc = .opening ∧ ch.offset = 0 ∧ ch.req ∈ s.waiting)
    (hserved : ∀ req ∈ s.requests, req ∈ Sys.requests { s with server, serverQueue, children } ∨
      req ∈ s.waiting ∧ (server = .stopping ∨ server = .exited))
    (hstopped : s.server = .stopping ∨ s.server = .exited → server = .stopping ∨ server = .exited)
    (hopen : serverQueue = none → server = .exited) (hstart : server ≠ .start)
    (hrunning : calm → server ≠ .stopping ∧ server ≠ .exited) :
    Inv env argv calm { s with server, serverQueue, children } := by
  have hsub : ∀ req ∈ Sys.requests { s with server, serverQueue, children },
      req ∈ s.requests := by
    intro req hreq
    rcases List.mem_append.mp hreq with hreq | hreq
    · exact List.mem_append_left _ (hwaiting req hreq)
    · obtain ⟨ch, hch, rfl⟩ := List.mem_map.mp hreq
      rcases hchildren ch hch with hold | ⟨-, -, hnew⟩
      · exact List.mem_append_right _ (List.mem_map_of_mem hold)
      · exact List.mem_append_left _ hnew
  constructor
  case nodup => exact hnodup
  case asked => exact fun req hreq => h.asked req (hsub req hreq)
  case known => exact fun req hreq => h.known req (hsub req hreq)
  case waiting => exact fun req hreq => h.waiting req (hwaiting req hreq)
  case talks =>
    intro ch hch
    rcases hchildren ch hch with hold | ⟨hpc, hoffset, hnew⟩
    · exact h.talks ch hold
    · rw [Talks, hpc]
      exact ⟨h.waiting ch.req hnew, hoffset⟩
  case served =>
    intro c hc
    rcases h.served c hc with hmem | ⟨hdelivered, hstop⟩
    · obtain ⟨req, hreq, rfl⟩ := List.mem_map.mp hmem
      rcases hserved req hreq with hreq | ⟨hreq, hstop⟩
      · exact .inl (List.mem_map_of_mem hreq)
      · exact .inr ⟨h.waiting req hreq, hstop⟩
    · exact .inr ⟨hdelivered, hstopped hstop⟩
  case listens => exact h.listens
  case argv => exact h.argv
  case open_queue => exact fun hnone => .inr (hopen hnone)
  case running => exact hrunning
  case not_started => exact fun h => absurd h hstart
  case begun => exact fun _ _ => hstart
  case fine => exact h.fine

/-- `main` of the server up to its loop. -/
theorem serverStart (h : Inv env argv calm s) {fails : Bool} (hcalm : calm → fails = false)
    (hserver : s.server = .start) {s' : Sys} (hstep : s.serverStep fails = .ok s') :
    Inv env argv calm s' := by
  have hnodup := h.nodup
  rw [Sys.requests, Sys.waiting] at hnodup
  rw [Sys.serverStep] at hstep
  have hqueue := h.not_started hserver
  have hnone : s.waiting = [] := by
    rw [Sys.waiting, hserver, hqueue]
    rfl
  rw [hserver] at hstep
  simp only at hstep
  cases fails with
  | true =>
      cases hstep
      apply h.server
      · rw [hserver, hqueue] at hnodup
        rw [hqueue]
        exact hnodup
      · intro req hreq
        rw [hqueue] at hreq
        cases hreq
      · exact fun ch hch => .inl hch
      · intro req hreq
        rw [Sys.requests, hnone] at hreq
        exact .inl (List.mem_append_right _ hreq)
      · exact fun _ => .inr rfl
      · exact fun _ => rfl
      · exact fun h => by cases h
      · exact fun hc => (not_calm hcalm rfl hc).elim
  | false =>
      cases hstep
      apply h.server
      · rw [hserver, hqueue] at hnodup
        exact hnodup
      · exact fun req hreq => by cases hreq
      · exact fun ch hch => .inl hch
      · intro req hreq
        rw [Sys.requests, hnone] at hreq
        exact .inl (List.mem_append_right _ hreq)
      · rw [hserver]
        exact fun h => h.elim (fun h => by cases h) fun h => by cases h
      · exact fun h => by cases h
      · exact fun h => by cases h
      · exact fun _ => ⟨(fun h => by cases h), fun h => by cases h⟩

/-- The server takes a request. -/
theorem receiveStep (h : Inv env argv calm s) {fails : Bool} (hcalm : calm → fails = false)
    (hserver : s.server = .receive) {s' : Sys} (hstep : s.serverStep fails = .ok s') :
    Inv env argv calm s' := by
  have hnodup := h.nodup
  rw [Sys.requests, Sys.waiting] at hnodup
  rw [Sys.serverStep] at hstep
  have hopen : s.serverQueue ≠ none := fun hnone => by
    rcases h.open_queue hnone with hs | hs
    · rw [hserver] at hs
      cases hs
    · rw [hserver] at hs
      cases hs
  have hwaiting : s.waiting = s.serverQueue.getD [] := by
    rw [Sys.waiting, hserver]
    rfl
  rw [hserver] at hstep
  simp only at hstep
  rw [hserver] at hnodup
  cases fails with
  | true =>
      cases hstep
      apply h.server
      · exact hnodup
      · intro req hreq
        rw [hwaiting]
        exact hreq
      · exact fun ch hch => .inl hch
      · intro req hreq
        rw [Sys.requests, hwaiting] at hreq
        exact .inl hreq
      · exact fun _ => .inl rfl
      · exact fun hnone => absurd hnone hopen
      · exact fun h => by cases h
      · exact fun hc => (not_calm hcalm rfl hc).elim
  | false =>
      rw [if_neg Bool.false_ne_true] at hstep
      cases hqueue : s.serverQueue with
      | none => exact absurd hqueue hopen
      | some queue =>
          rw [hqueue] at hstep hwaiting hnodup
          cases queue with
          | nil => cases hstep
          | cons req rest =>
              cases hstep
              apply h.server
              · exact hnodup
              · intro r hr
                rw [hwaiting]
                exact hr
              · exact fun ch hch => .inl hch
              · intro r hr
                rw [Sys.requests, hwaiting] at hr
                exact .inl hr
              · rw [hserver]
                exact fun h => h.elim (fun h => by cases h) fun h => by cases h
              · exact fun h => by cases h
              · exact fun h => by cases h
              · exact fun _ => ⟨(fun h => by cases h), fun h => by cases h⟩

/-- The server hands a request to a child. -/
theorem forkStep (h : Inv env argv calm s) {fails : Bool} (hcalm : calm → fails = false)
    {req : RequestMsg} (hserver : s.server = .fork req) {s' : Sys}
    (hstep : s.serverStep fails = .ok s') :
    Inv env argv calm s' := by
  have hnodup := h.nodup
  rw [Sys.requests, Sys.waiting] at hnodup
  rw [Sys.serverStep] at hstep
  have hopen : s.serverQueue ≠ none := fun hnone => by
    rcases h.open_queue hnone with hs | hs
    · rw [hserver] at hs
      cases hs
    · rw [hserver] at hs
      cases hs
  have hwaiting : s.waiting = req :: s.serverQueue.getD [] := by
    rw [Sys.waiting, hserver]
    rfl
  rw [hserver] at hstep
  simp only at hstep
  rw [hserver] at hnodup
  cases fails with
  | true =>
      cases hstep
      apply h.server
      · exact (List.nodup_cons.mp hnodup).2
      · intro r hr
        rw [hwaiting]
        exact List.mem_cons_of_mem _ hr
      · exact fun ch hch => .inl hch
      · intro r hr
        rw [Sys.requests, hwaiting] at hr
        rcases List.mem_cons.mp hr with rfl | hr
        · rw [hwaiting]
          exact .inr ⟨List.mem_cons_self, .inl rfl⟩
        · exact .inl hr
      · exact fun _ => .inl rfl
      · exact fun hnone => absurd hnone hopen
      · exact fun h => by cases h
      · exact fun hc => (not_calm hcalm rfl hc).elim
  | false =>
      cases hstep
      have hperm : (Sys.requests { s with
          server := .receive
          children := s.children ++ [{ req, pc := .opening, offset := 0 }] }).Perm
            s.requests := by
        rw [Sys.requests, Sys.requests, hwaiting, List.map_append, ← List.append_assoc]
        exact List.perm_append_singleton _ _
      apply h.server
      · exact (hperm.map RequestMsg.clientId).nodup_iff.mpr h.nodup
      · intro r hr
        rw [hwaiting]
        exact List.mem_cons_of_mem _ hr
      · intro ch hch
        rcases List.mem_append.mp hch with hch | hch
        · exact .inl hch
        · rw [List.mem_singleton.mp hch, hwaiting]
          exact .inr ⟨rfl, rfl, List.mem_cons_self⟩
      · exact fun r hr => .inl (hperm.symm.subset hr)
      · rw [hserver]
        exact fun h => h.elim (fun h => by cases h) fun h => by cases h
      · exact fun hnone => absurd hnone hopen
      · exact fun h => by cases h
      · exact fun _ => ⟨(fun h => by cases h), fun h => by cases h⟩

/-- The server removes its queue. -/
theorem stoppingStep (h : Inv env argv calm s) {fails : Bool}
    (hserver : s.server = .stopping) {s' : Sys} (hstep : s.serverStep fails = .ok s') :
    Inv env argv calm s' := by
  have hnodup := h.nodup
  rw [Sys.requests, Sys.waiting] at hnodup
  rw [Sys.serverStep] at hstep
  rw [hserver] at hstep
  cases hstep
  apply h.server
  · rw [List.map_append] at hnodup
    exact (List.nodup_append.mp hnodup).2.1
  · exact fun r hr => by cases hr
  · exact fun ch hch => .inl hch
  · intro r hr
    rcases List.mem_append.mp hr with hr | hr
    · exact .inr ⟨hr, .inr rfl⟩
    · exact .inl hr
  · exact fun _ => .inr rfl
  · exact fun _ => rfl
  · exact fun h => by cases h
  · exact fun hc => ((h.running hc).1 hserver).elim

theorem serverStep (h : Inv env argv calm s) {fails : Bool} (hcalm : calm → fails = false)
    {s' : Sys} (hstep : s.serverStep fails = .ok s') : Inv env argv calm s' := by
  cases hserver : s.server with
  | start => exact h.serverStart hcalm hserver hstep
  | receive => exact h.receiveStep hcalm hserver hstep
  | fork _ => exact h.forkStep hcalm hserver hstep
  | stopping => exact h.stoppingStep hserver hstep
  | exited =>
      rw [Sys.serverStep, hserver] at hstep
      cases hstep

/-- A child goes on, and with it the queue of its client. -/
theorem child (h : Inv env argv calm s) {k : Nat} {ch : Child}
    (hk : s.children[k]? = some ch) {pc : ChildPc} {offset : Nat}
    {queue : Option (List ResponseMsg)} {delivered : List ResponseMsg}
    (htalks : Talks env calm { ch with pc, offset } queue delivered)
    (hlistens : Listens (s.clients ch.req.clientId) queue delivered) :
    Inv env argv calm { s with
      queues := Function.update s.queues ch.req.clientId queue
      delivered := Function.update s.delivered ch.req.clientId delivered
      children := s.children.set k { ch with pc, offset } } := by
  have hmap : (s.children.set k { ch with pc, offset }).map Child.req
      = s.children.map Child.req := by
    obtain ⟨hlt, hch⟩ := List.getElem?_eq_some_iff.mp hk
    have hlt' : k < (s.children.map Child.req).length := by rwa [List.length_map]
    have hget : (s.children.map Child.req)[k] = ch.req := by rw [List.getElem_map, hch]
    rw [List.map_set, ← hget, List.set_getElem_self]
  have hrequests : Sys.requests { s with
      queues := Function.update s.queues ch.req.clientId queue
      delivered := Function.update s.delivered ch.req.clientId delivered
      children := s.children.set k { ch with pc, offset } } = s.requests := by
    rw [Sys.requests, Sys.requests, hmap]
    rfl
  have hmem : ch.req ∈ s.children.map Child.req :=
    List.mem_map_of_mem (List.mem_of_getElem? hk)
  have hnodup := h.nodup
  rw [Sys.requests, List.map_append, List.nodup_append] at hnodup
  obtain ⟨-, hchildren, hdisjoint⟩ := hnodup
  constructor
  case nodup =>
    rw [hrequests]
    exact h.nodup
  case asked =>
    intro req hr
    rw [hrequests] at hr
    exact h.asked req hr
  case known =>
    intro req hr
    rw [hrequests] at hr
    exact h.known req hr
  case waiting =>
    intro req hr
    show Function.update s.delivered ch.req.clientId delivered req.clientId = []
    rw [Function.update_of_ne
      (hdisjoint _ (List.mem_map_of_mem hr) _ (List.mem_map_of_mem hmem))]
    exact h.waiting req hr
  case talks =>
    intro other hother
    obtain ⟨j, hj⟩ := List.mem_iff_getElem?.mp hother
    change (s.children.set k { ch with pc, offset })[j]? = some other at hj
    show Talks env calm other (Function.update s.queues ch.req.clientId queue other.req.clientId)
      (Function.update s.delivered ch.req.clientId delivered other.req.clientId)
    by_cases hjk : j = k
    · subst hjk
      have hlt : j < s.children.length := (List.getElem?_eq_some_iff.mp hk).1
      rw [List.getElem?_set_self hlt] at hj
      obtain rfl := Option.some.inj hj
      rw [Function.update_self, Function.update_self]
      exact htalks
    · rw [List.getElem?_set_ne (Ne.symm hjk)] at hj
      have hne : other.req.clientId ≠ ch.req.clientId := by
        intro heq
        apply hjk
        have hlt : j < ((s.children.map Child.req).map RequestMsg.clientId).length := by
          rw [List.length_map, List.length_map]
          exact (List.getElem?_eq_some_iff.mp hj).1
        apply (List.getElem?_inj hlt hchildren).mp
        rw [List.getElem?_map, List.getElem?_map, List.getElem?_map, List.getElem?_map, hj, hk]
        exact congrArg some heq
      rw [Function.update_of_ne hne, Function.update_of_ne hne]
      exact h.talks other (List.mem_of_getElem? hj)
  case served =>
    intro c hc
    rw [hrequests]
    by_cases hself : c = ch.req.clientId
    · rw [hself]
      exact .inl (List.mem_map_of_mem (List.mem_append_right _ hmem))
    · rcases h.served c hc with hserved | ⟨hdelivered, hstop⟩
      · exact .inl hserved
      · apply Or.inr
        constructor
        · show Function.update s.delivered ch.req.clientId delivered c = []
          rw [Function.update_of_ne hself]
          exact hdelivered
        · exact hstop
  case listens =>
    intro c
    show Listens (s.clients c) (Function.update s.queues ch.req.clientId queue c)
      (Function.update s.delivered ch.req.clientId delivered c)
    by_cases hself : c = ch.req.clientId
    · subst hself
      rw [Function.update_self, Function.update_self]
      exact hlistens
    · rw [Function.update_of_ne hself, Function.update_of_ne hself]
      exact h.listens c
  case argv => exact h.argv
  case open_queue => exact h.open_queue
  case running => exact h.running
  case not_started => exact h.not_started
  case begun => exact h.begun
  case fine => exact h.fine

/-- A child goes on without a message. -/
theorem childPc (h : Inv env argv calm s) {k : Nat} {ch : Child}
    (hk : s.children[k]? = some ch) {pc : ChildPc} {offset : Nat}
    (htalks : Talks env calm { ch with pc, offset } (s.queues ch.req.clientId)
      (s.delivered ch.req.clientId)) :
    Inv env argv calm { s with children := s.children.set k { ch with pc, offset } } := by
  have h' := h.child hk htalks (h.listens _)
  rw [Function.update_eq_self, Function.update_eq_self] at h'
  exact h'

/-- A child sends a message. -/
theorem childSend (h : Inv env argv calm s) {k : Nat} {ch : Child}
    (hk : s.children[k]? = some ch) {pc : ChildPc} {offset : Nat} {msg : ResponseMsg} {fails : Bool}
    {queue : List ResponseMsg} (hsend : s.send env ch msg fails = .sent queue)
    (htalks : Talks env calm { ch with pc, offset } (some queue)
      (s.delivered ch.req.clientId ++ [msg])) :
    Inv env argv calm { s.deliver ch.req.clientId msg queue with
      children := s.children.set k { ch with pc, offset } } := by
  obtain ⟨old, hold, rfl⟩ := msgsnd_sent hsend
  apply h.child hk htalks
  have hlistens := h.listens ch.req.clientId
  rw [hold] at hlistens
  exact hlistens.deliver (h.asked ch.req (List.mem_append_right _
    (List.mem_map_of_mem (List.mem_of_getElem? hk)))).2 msg

/-- A `msgsnd` that fails without a reason of its own has no queue. -/
theorem send_gone {ch : Child} {msg : ResponseMsg} {fails : Bool} (hcalm : calm → fails = false)
    (hsend : s.send env ch msg fails = .failed) (hc : calm) :
    s.queues ch.req.clientId = none := by
  apply (msgsnd_failed hsend).resolve_right
  rw [hcalm hc]
  exact Bool.false_ne_true

/-- The child opens the file. -/
theorem openStep (h : Inv env argv calm s) {k : Nat} {ch : Child}
    (hk : s.children[k]? = some ch) {fails : Bool} (hcalm : calm → fails = false) {count : Nat}
    (hpc : ch.pc = .opening) {s' : Sys} {ch' : Child}
    (hstep : s.childStep env ch fails count = .ok (s', ch')) :
    Inv env argv calm { s' with children := s'.children.set k ch' } := by
  have htalks := h.talks ch (List.mem_of_getElem? hk)
  rw [Talks] at htalks
  rw [Sys.childStep] at hstep
  rw [hpc] at hstep htalks
  obtain ⟨hdelivered, hoffset⟩ := htalks
  simp only at hstep
  split at hstep
  · next hfails =>
      cases hstep
      apply h.childPc hk
      exact ⟨hdelivered, fun hc => hfails.resolve_left fun hf => not_calm hcalm hf hc⟩
  · next hfile =>
      cases hstep
      obtain ⟨content, hcontent⟩ :=
        Option.ne_none_iff_exists'.mp fun hnone => hfile (.inr hnone)
      apply h.childPc hk
      exact ⟨content, hcontent, by rw [hdelivered]; exact AllData.nil,
        by rw [hdelivered, hoffset]; rfl⟩

/-- The child says that it could not open the file. -/
theorem couldntOpenStep (h : Inv env argv calm s) {k : Nat} {ch : Child}
    (hk : s.children[k]? = some ch) {fails : Bool} (hcalm : calm → fails = false) {count : Nat}
    (hpc : ch.pc = .couldntOpen) {s' : Sys} {ch' : Child}
    (hstep : s.childStep env ch fails count = .ok (s', ch')) :
    Inv env argv calm { s' with children := s'.children.set k ch' } := by
  have htalks := h.talks ch (List.mem_of_getElem? hk)
  rw [Talks] at htalks
  rw [Sys.childStep] at hstep
  rw [hpc] at hstep htalks
  obtain ⟨hdelivered, hfile⟩ := htalks
  simp only at hstep
  cases hsend : s.send env ch { mtype := .failure, data := couldntOpen } fails with
  | failed =>
      rw [hsend] at hstep
      cases hstep
      apply h.childPc hk
      exact .inl ⟨by rw [hdelivered]; exact AllData.nil, by rw [hdelivered]; exact List.nil_prefix,
        send_gone hcalm hsend⟩
  | asleep =>
      rw [hsend] at hstep
      cases hstep
  | sent queue =>
      rw [hsend] at hstep
      cases hstep
      apply h.childSend hk hsend
      exact .inr (.inr ⟨by rw [hdelivered]; rfl, hfile⟩)

/-- The child reads. -/
theorem readStep (h : Inv env argv calm s) {k : Nat} {ch : Child}
    (hk : s.children[k]? = some ch) {fails : Bool} (hcalm : calm → fails = false) {count : Nat}
    (hpc : ch.pc = .reading) {s' : Sys} {ch' : Child}
    (hstep : s.childStep env ch fails count = .ok (s', ch')) :
    Inv env argv calm { s' with children := s'.children.set k ch' } := by
  have htalks := h.talks ch (List.mem_of_getElem? hk)
  rw [Talks] at htalks
  rw [Sys.childStep] at hstep
  rw [hpc] at hstep htalks
  obtain ⟨content, hfile, hall, htexts⟩ := htalks
  simp only at hstep
  cases hf : fails with
  | true =>
      rw [if_pos hf] at hstep
      cases hstep
      apply h.childPc hk
      exact ⟨content, hfile, hall, htexts ▸ List.take_prefix _ _,
        fun hc => (not_calm hcalm hf hc).elim⟩
  | false =>
      rw [if_neg (by rw [hf]; exact Bool.false_ne_true), hfile, Option.getD_some] at hstep
      cases hread : (content.drop ch.offset).take (min (count + 1) respMsgSize) with
      | nil =>
          rw [hread] at hstep
          cases hstep
          apply h.childPc hk
          have hend : content.length ≤ ch.offset := by
            rw [List.take_eq_nil_iff, List.drop_eq_nil_iff] at hread
            rcases hread with hread | hread
            · rw [respMsgSize] at hread
              omega
            · exact hread
          rw [List.take_of_length_le hend] at htexts
          exact ⟨content, hfile, hall, htexts ▸ List.prefix_rfl, fun _ => .inl htexts⟩
      | cons b bs =>
          rw [hread] at hstep
          cases hstep
          apply h.childPc hk
          refine ⟨content, hfile, hall, ?_, ?_⟩
          · show _ = content.take (ch.offset + (b :: bs).length)
            rw [htexts, List.take_add, ← hread, List.length_take,
              ← List.take_eq_take_min]
          · rw [← hread, List.length_take]
            omega

/-- The child sends what it has read. -/
theorem dataStep (h : Inv env argv calm s) {k : Nat} {ch : Child}
    (hk : s.children[k]? = some ch) {fails : Bool} (hcalm : calm → fails = false) {count : Nat}
    {data : List UInt8} (hpc : ch.pc = .sending data) {s' : Sys} {ch' : Child}
    (hstep : s.childStep env ch fails count = .ok (s', ch')) :
    Inv env argv calm { s' with children := s'.children.set k ch' } := by
  have htalks := h.talks ch (List.mem_of_getElem? hk)
  rw [Talks] at htalks
  rw [Sys.childStep] at hstep
  rw [hpc] at hstep htalks
  obtain ⟨content, hfile, hall, htexts, hlen⟩ := htalks
  simp only at hstep
  cases hsend : s.send env ch { mtype := .data, data } fails with
  | failed =>
      rw [hsend] at hstep
      cases hstep
      apply h.childPc hk
      exact ⟨content, hfile, hall,
        (List.prefix_append _ data).trans (htexts ▸ List.take_prefix _ _),
        fun hc => .inr (send_gone hcalm hsend hc)⟩
  | asleep =>
      rw [hsend] at hstep
      cases hstep
  | sent queue =>
      rw [hsend] at hstep
      cases hstep
      apply h.childSend hk hsend
      exact ⟨content, hfile, hall.append (AllData.single rfl), by
        rw [texts_append, ← htexts, texts_singleton]⟩

/-- The child sends the end. -/
theorem endStep (h : Inv env argv calm s) {k : Nat} {ch : Child}
    (hk : s.children[k]? = some ch) {fails : Bool} (hcalm : calm → fails = false) {count : Nat}
    (hpc : ch.pc = .ending) {s' : Sys} {ch' : Child}
    (hstep : s.childStep env ch fails count = .ok (s', ch')) :
    Inv env argv calm { s' with children := s'.children.set k ch' } := by
  have htalks := h.talks ch (List.mem_of_getElem? hk)
  rw [Talks] at htalks
  rw [Sys.childStep] at hstep
  rw [hpc] at hstep htalks
  obtain ⟨content, hfile, hall, hstarts, hcontent⟩ := htalks
  simp only at hstep
  cases hsend : s.send env ch { mtype := .ending, data := [] } fails with
  | failed =>
      rw [hsend] at hstep
      cases hstep
      apply h.childPc hk
      exact .inl ⟨hall, by rw [hfile]; exact hstarts, send_gone hcalm hsend⟩
  | asleep =>
      rw [hsend] at hstep
      cases hstep
  | sent queue =>
      rw [hsend] at hstep
      cases hstep
      obtain ⟨old, hold, -⟩ := msgsnd_sent hsend
      apply h.childSend hk hsend
      apply Or.inr
      apply Or.inl
      refine ⟨content, _, hfile, rfl, hall, hstarts, fun hc => (hcontent hc).resolve_right ?_⟩
      rw [hold]
      exact Option.some_ne_none _

theorem childStep (h : Inv env argv calm s) {k : Nat} {ch : Child}
    (hk : s.children[k]? = some ch) {fails : Bool} (hcalm : calm → fails = false) {count : Nat}
    {s' : Sys} {ch' : Child} (hstep : s.childStep env ch fails count = .ok (s', ch')) :
    Inv env argv calm { s' with children := s'.children.set k ch' } := by
  cases hpc : ch.pc with
  | opening => exact h.openStep hk hcalm hpc hstep
  | couldntOpen => exact h.couldntOpenStep hk hcalm hpc hstep
  | reading => exact h.readStep hk hcalm hpc hstep
  | sending _ => exact h.dataStep hk hcalm hpc hstep
  | ending => exact h.endStep hk hcalm hpc hstep
  | exited =>
      rw [Sys.childStep, hpc] at hstep
      cases hstep

end Inv

/-- What one call keeps. -/
theorem Inv.step {env : Env} {argv : Nat → Path} {calm : Prop} {s : Sys}
    (h : Inv env argv calm s) {e : Event} (hcalm : calm → e.fails = false) :
    Ends (Inv env argv calm) (fun _ => True) (s.step env e) := by
  apply ends_of_forall
  intro s' hstep
  cases e with
  | server fails => exact h.serverStep hcalm hstep
  | client c fails =>
      rw [Sys.step] at hstep
      split at hstep
      · next hc => exact h.clientStep hc hcalm hstep
      · cases hstep
  | child k fails count =>
      rw [Sys.step] at hstep
      cases hk : s.children[k]? with
      | none =>
          rw [hk] at hstep
          cases hstep
      | some ch =>
          rw [hk] at hstep
          simp only at hstep
          cases hch : s.childStep env ch fails count with
          | error e =>
              rw [hch] at hstep
              cases hstep
          | ok r =>
              rw [hch] at hstep
              cases hstep
              exact h.childStep hk hcalm hch

end LinuxCodeDemos.SvMsg

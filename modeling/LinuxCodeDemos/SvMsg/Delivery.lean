/-
  LinuxCodeDemos.SvMsg.Delivery

  What the clients of the file server get, whatever the order of the calls and whichever of them
  fail.
-/

import LinuxCodeDemos.SvMsg.Steps

namespace LinuxCodeDemos.SvMsg

open Lib

namespace Inv

variable {env : Env} {argv : Nat → Path} {calm : Prop} {s : Sys}

theorem of_run {es : List Event} (hcalm : calm → ∀ e ∈ es, e.fails = false)
    (hrun : runSteps (Sys.step env) (.start argv) es = .ok s) : Inv env argv calm s := by
  have hcond : AlongRun (Sys.step env) (fun _ e => calm → e.fails = false) (.start argv) es :=
    alongRun_of_forall (fun e he _ hc => hcalm hc e he) _
  exact (runSteps_ends (fun _ _ h hc => h.step hc) (inv_start env argv calm) hcond).of_ok hrun

theorem received_starts (h : Inv env argv calm s) (c : Nat) :
    (s.clients c).received <+: s.delivered c := by
  have hlistens := h.listens c
  rw [Listens] at hlistens
  cases hpc : (s.clients c).pc with
  | start | getQueue | sendRequest | receiveFirst =>
      rw [hpc] at hlistens
      rw [hlistens.1]
      exact List.nil_prefix
  | receiveNext totBytes numMsgs =>
      rw [hpc] at hlistens
      obtain ⟨⟨rest, -, hdelivered⟩, -⟩ := hlistens
      exact ⟨rest, hdelivered.symm⟩
  | exiting result =>
      rw [hpc] at hlistens
      obtain ⟨⟨rest, -, hdelivered⟩, -⟩ := hlistens
      exact ⟨rest, hdelivered.symm⟩
  | exited result =>
      rw [hpc] at hlistens
      obtain ⟨-, ⟨rest, hdelivered⟩, -⟩ := hlistens
      exact ⟨rest, hdelivered.symm⟩

theorem told (h : Inv env argv calm s) {c : Nat} {result : Result}
    (hpc : (s.clients c).pc.result = some result) : result.Tells (s.clients c).received := by
  have hlistens := h.listens c
  rw [Listens] at hlistens
  cases hcl : (s.clients c).pc with
  | start | getQueue | sendRequest | receiveFirst | receiveNext =>
      rw [hcl] at hpc
      cases hpc
  | exiting result' =>
      rw [hcl] at hpc hlistens
      cases hpc
      exact hlistens.2
  | exited result' =>
      rw [hcl] at hpc hlistens
      cases hpc
      exact hlistens.2.2

/-- Who has received something has asked. -/
theorem asked_of_received (h : Inv env argv calm s) {c : Nat}
    (hne : (s.clients c).received ≠ []) : (s.clients c).pc.Asked := by
  have hlistens := h.listens c
  rw [Listens] at hlistens
  have hresult : ∀ result : Result, result.Tells (s.clients c).received → result.Asked := by
    intro result hsays
    cases result with
    | usage | noServer | noQueue | notSent => exact absurd hsays hne
    | notReceived | refused | received => trivial
  cases hpc : (s.clients c).pc with
  | start | getQueue | sendRequest =>
      rw [hpc] at hlistens
      exact absurd hlistens.1 hne
  | receiveFirst | receiveNext => trivial
  | exiting result => exact hresult result (h.told (by rw [hpc]; rfl))
  | exited result => exact hresult result (h.told (by rw [hpc]; rfl))

/-- Something was put into the queue of the client only by a child of its own. -/
theorem exists_child (h : Inv env argv calm s) {c : Nat} (hasked : (s.clients c).pc.Asked)
    (hne : s.delivered c ≠ []) :
    ∃ ch ∈ s.children, ch.req.clientId = c ∧ ch.req.pathname = argv c := by
  rcases h.served c hasked with hmem | ⟨hnil, -⟩
  · obtain ⟨req, hreq, rfl⟩ := List.mem_map.mp hmem
    rcases List.mem_append.mp hreq with hwaiting | hchild
    · exact absurd (h.waiting req hwaiting) hne
    · obtain ⟨ch, hch, rfl⟩ := List.mem_map.mp hchild
      exact ⟨ch, hch, rfl, (h.asked ch.req hreq).1⟩
  · exact absurd hnil hne

/-- The bytes of a file that a client has received are the first of the file it asked for. -/
theorem fileBytes_received (h : Inv env argv calm s) (c : Nat) :
    fileBytes (s.clients c).received <+: (env.files (argv c)).getD [] := by
  by_cases hne : (s.clients c).received = []
  · rw [hne]
    exact List.nil_prefix
  · have hstarts := h.received_starts c
    have hdelivered : s.delivered c ≠ [] := fun hnil =>
      hne (List.prefix_nil.mp (hnil ▸ hstarts))
    obtain ⟨ch, hch, rfl, hpath⟩ := h.exists_child (h.asked_of_received hne) hdelivered
    exact (fileBytes_mono hstarts).trans (hpath ▸ (h.talks ch hch).fileBytes)

/-- What a client has been told when it stops. -/
theorem last_received (h : Inv env argv calm s) {c : Nat} {before : List ResponseMsg}
    {last : ResponseMsg} (hreceived : (s.clients c).received = before ++ [last])
    (hlast : last.mtype ≠ .data) :
    Answered env calm (argv c) before last := by
  have hne : (s.clients c).received ≠ [] := by
    rw [hreceived]
    exact List.append_ne_nil_of_right_ne_nil _ (List.cons_ne_nil _ _)
  have hstarts := h.received_starts c
  have hdelivered : s.delivered c ≠ [] := fun hnil =>
    hne (List.prefix_nil.mp (hnil ▸ hstarts))
  obtain ⟨ch, hch, rfl, hpath⟩ := h.exists_child (h.asked_of_received hne) hdelivered
  rw [← hpath]
  exact (h.talks ch hch).answered (hreceived ▸ hstarts) hlast

/-- A client that has printed its totals. -/
theorem received_result (h : Inv env argv calm s) {c totBytes numMsgs : Nat}
    (hpc : (s.clients c).pc.result = some (.received totBytes numMsgs)) :
    ∃ content, env.files (argv c) = some content ∧
      fileBytes (s.clients c).received <+: content ∧
      (calm → fileBytes (s.clients c).received = content) ∧
      totBytes = (fileBytes (s.clients c).received).length ∧
      numMsgs = (s.clients c).received.length % 2 ^ 32 := by
  obtain ⟨before, last, hreceived, hall, hlast, hfirst, htot, hnum⟩ := h.told hpc
  rcases h.last_received hreceived hlast with
    ⟨content, hfile, rfl, hstarts, hcontent⟩ | ⟨hnil, hfailure, -⟩
  · have htexts : texts (s.clients c).received = texts before := by
      rw [hreceived, texts_append, texts_singleton, List.append_nil]
    have hbytes : fileBytes (s.clients c).received = texts before := by
      rw [hreceived, fileBytes_append, hall.fileBytes]
      exact List.append_nil _
    rw [hbytes]
    rw [htexts] at htot
    exact ⟨content, hfile, hstarts, hcontent, htot, hnum⟩
  · rw [hfirst hnil] at hfailure
    cases hfailure

/-- A client that was refused. -/
theorem refused_result (h : Inv env argv calm s) {c : Nat}
    (hpc : (s.clients c).pc.result = some .refused) (hc : calm) : env.files (argv c) = none := by
  obtain ⟨m, hreceived, hmtype⟩ := h.told hpc
  rw [← List.nil_append [m]] at hreceived
  have hlast : m.mtype ≠ .data := by
    rw [hmtype]
    exact failure_ne_data
  rcases h.last_received hreceived hlast with
    ⟨content, hfile, rfl, -, -⟩ | ⟨-, -, hnone⟩
  · cases hmtype
  · exact hnone hc

end Inv

/-- **Whatever the order of the calls, and whichever of them fail:** a client gets at most one
    child, which serves the path that the client asked for; the bytes of a file that a client has
    received are the first of that file; and the totals it prints are those of what it received
    (the number of messages as an `int` without its sign). -/
theorem fileServer_safe {env : Env} {argv : Nat → Path} {es : List Event} {s : Sys}
    (hrun : runSteps (Sys.step env) (.start argv) es = .ok s) :
    (s.children.map fun ch => ch.req.clientId).Nodup ∧
      (∀ ch ∈ s.children, ch.req.pathname = argv ch.req.clientId) ∧
      ∀ c, fileBytes (s.clients c).received <+: (env.files (argv c)).getD [] ∧
        ∀ totBytes numMsgs, (s.clients c).pc.result = some (.received totBytes numMsgs) →
          (env.files (argv c)).isSome ∧
            totBytes = (fileBytes (s.clients c).received).length ∧
            numMsgs = (s.clients c).received.length % 2 ^ 32 := by
  have h : Inv env argv False s := Inv.of_run False.elim hrun
  have hnodup := h.nodup
  rw [Sys.requests, List.map_append, List.nodup_append, List.map_map] at hnodup
  constructor
  · exact hnodup.2.1
  · constructor
    · exact fun ch hch => (h.asked ch.req (List.mem_append_right _ (List.mem_map_of_mem hch))).1
    · intro c
      constructor
      · exact h.fileBytes_received c
      · intro totBytes numMsgs hpc
        obtain ⟨content, hfile, -, -, htot, hnum⟩ := h.received_result hpc
        exact ⟨by rw [hfile]; rfl, htot, hnum⟩

/-- One client of a server that has the file `A` with the one byte 1. -/
def oneFile : Env where
  files := fun path => if path = [65] then some [1] else none
  numClients := 1
  qbytes := respMsgSize

/-- The calls that bring the file to the client. -/
def oneFileSchedule : List Event :=
  .server false :: List.replicate 3 (.client 0 false) ++ List.replicate 2 (.server false) ++
    List.replicate 5 (.child 0 false 0) ++ List.replicate 3 (.client 0 false)

/-- The state behind them. -/
def oneFileEnd : Sys :=
  match runSteps (Sys.step oneFile) (.start fun _ => [65]) oneFileSchedule with
  | .ok s => s
  | .error _ => .start fun _ => [65]

theorem fileServer_safe_oneFile :
    (oneFileEnd.clients 0).pc = .exited (.received 1 2) ∧
      (oneFileEnd.children.map fun ch => ch.req.clientId).Nodup ∧
      (∀ ch ∈ oneFileEnd.children, ch.req.pathname = [65]) ∧
      ∀ c, fileBytes (oneFileEnd.clients c).received <+: (oneFile.files [65]).getD [] ∧
        ∀ totBytes numMsgs,
          (oneFileEnd.clients c).pc.result = some (.received totBytes numMsgs) →
            (oneFile.files [65]).isSome ∧
              totBytes = (fileBytes (oneFileEnd.clients c).received).length ∧
              numMsgs = (oneFileEnd.clients c).received.length % 2 ^ 32 := by
  have hrun : runSteps (Sys.step oneFile) (.start fun _ => [65]) oneFileSchedule
      = .ok oneFileEnd := rfl
  exact ⟨rfl, fileServer_safe hrun⟩

end LinuxCodeDemos.SvMsg

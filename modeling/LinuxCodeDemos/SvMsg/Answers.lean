/-
  LinuxCodeDemos.SvMsg.Answers

  What was put into the queue of a client, and what the client makes of it.

  - `Listens` ties a client to its queue and to all that was ever put into it.
  - `Talks` ties a child to what it has put into the queue of its client; `Talks.fileBytes` and
    `Talks.answered` are what a client can rely on.
-/

import LinuxCodeDemos.SvMsg.FileServer

namespace LinuxCodeDemos.SvMsg

def AllData (msgs : List ResponseMsg) : Prop := ∀ m ∈ msgs, m.mtype = .data

theorem AllData.nil : AllData [] := fun _ hm => absurd hm List.not_mem_nil

theorem failure_ne_data : RespMt.failure ≠ .data := by decide

theorem ending_ne_data : RespMt.ending ≠ .data := by decide

/-- The bytes of the messages. -/
def texts (msgs : List ResponseMsg) : List UInt8 := msgs.flatMap ResponseMsg.data

/-- The bytes of the file among the messages. -/
def fileBytes (msgs : List ResponseMsg) : List UInt8 :=
  texts (msgs.filter fun m => m.mtype = .data)

/-- The server has the request of such a client. -/
def Result.Asked : Result → Prop
  | .usage | .noServer | .noQueue | .notSent => False
  | .notReceived | .refused | .received _ _ => True

def ClientPc.Asked : ClientPc → Prop
  | .start | .getQueue | .sendRequest => False
  | .receiveFirst | .receiveNext _ _ => True
  | .exiting result | .exited result => result.Asked

/-- No call of the client has failed for a reason of its own. -/
def Result.Fine : Result → Prop
  | .noQueue | .notSent | .notReceived => False
  | .usage | .noServer | .refused | .received _ _ => True

def ClientPc.Fine : ClientPc → Prop
  | .exiting result | .exited result => result.Fine
  | _ => True

/-- The client has found the queue of the server and not yet sent its request. -/
def ClientPc.Begun : ClientPc → Prop
  | .getQueue | .sendRequest => True
  | _ => False

/-- How the client ends. -/
def ClientPc.result : ClientPc → Option Result
  | .exiting result | .exited result => some result
  | _ => none

/-- What a client says when it ends fits the messages it has received. -/
def Result.Tells (msgs : List ResponseMsg) : Result → Prop
  | .usage | .noServer | .noQueue | .notSent => msgs = []
  | .notReceived => AllData msgs
  | .refused => ∃ m, msgs = [m] ∧ m.mtype = .failure
  | .received totBytes numMsgs =>
      ∃ before last, msgs = before ++ [last] ∧ AllData before ∧ last.mtype ≠ .data ∧
        (before = [] → last.mtype = .ending) ∧ totBytes = (texts msgs).length ∧
        numMsgs = msgs.length % 2 ^ 32

/-- A client with its queue, and all that was ever put into it. -/
def Listens (cl : Client) (queue : Option (List ResponseMsg)) (delivered : List ResponseMsg) :
    Prop :=
  match cl.pc with
  | .start | .getQueue => cl.received = [] ∧ queue = none ∧ delivered = []
  | .sendRequest => cl.received = [] ∧ queue = some [] ∧ delivered = []
  | .receiveFirst => cl.received = [] ∧ queue = some delivered
  | .receiveNext totBytes numMsgs =>
      (∃ rest, queue = some rest ∧ delivered = cl.received ++ rest) ∧ AllData cl.received ∧
        cl.received ≠ [] ∧ totBytes = (texts cl.received).length ∧
        numMsgs = cl.received.length % 2 ^ 32
  | .exiting result =>
      (∃ rest, queue = some rest ∧ delivered = cl.received ++ rest) ∧ result.Tells cl.received
  | .exited result =>
      queue = none ∧ (∃ rest, delivered = cl.received ++ rest) ∧ result.Tells cl.received

/-- A child, and all that was put into the queue of its client.  `calm` says that no call has
    failed for a reason of its own. -/
def Talks (env : Env) (calm : Prop) (ch : Child) (queue : Option (List ResponseMsg))
    (delivered : List ResponseMsg) : Prop :=
  match ch.pc with
  | .opening => delivered = [] ∧ ch.offset = 0
  | .couldntOpen => delivered = [] ∧ (calm → env.files ch.req.pathname = none)
  | .reading =>
      ∃ content, env.files ch.req.pathname = some content ∧ AllData delivered ∧
        texts delivered = content.take ch.offset
  | .sending data =>
      ∃ content, env.files ch.req.pathname = some content ∧ AllData delivered ∧
        texts delivered ++ data = content.take ch.offset ∧ data.length ≤ respMsgSize
  | .ending =>
      ∃ content, env.files ch.req.pathname = some content ∧ AllData delivered ∧
        texts delivered <+: content ∧ (calm → texts delivered = content ∨ queue = none)
  | .exited =>
      (AllData delivered ∧ texts delivered <+: (env.files ch.req.pathname).getD [] ∧
        (calm → queue = none)) ∨
      (∃ content before, env.files ch.req.pathname = some content ∧
        delivered = before ++ [{ mtype := .ending, data := [] }] ∧ AllData before ∧
        texts before <+: content ∧ (calm → texts before = content)) ∨
      (delivered = [{ mtype := .failure, data := couldntOpen }] ∧
        (calm → env.files ch.req.pathname = none))

theorem AllData.append {msgs msgs' : List ResponseMsg} (h : AllData msgs) (h' : AllData msgs') :
    AllData (msgs ++ msgs') := by
  intro m hm
  rcases List.mem_append.mp hm with hm | hm
  · exact h m hm
  · exact h' m hm

theorem texts_append (msgs msgs' : List ResponseMsg) :
    texts (msgs ++ msgs') = texts msgs ++ texts msgs' := List.flatMap_append

theorem texts_singleton (msg : ResponseMsg) : texts [msg] = msg.data := List.flatMap_singleton _ _

theorem AllData.single {m : ResponseMsg} (h : m.mtype = .data) : AllData [m] := by
  intro m' hm
  rw [List.mem_singleton.mp hm]
  exact h

/-- A queue that is gone stays so; a child needs no more of it. -/
theorem Talks.queue {env : Env} {calm : Prop} {ch : Child}
    {queue queue' : Option (List ResponseMsg)} {delivered : List ResponseMsg}
    (h : Talks env calm ch queue delivered)
    (hgone : queue = none → queue' = none) : Talks env calm ch queue' delivered := by
  rw [Talks] at h ⊢
  cases hpc : ch.pc with
  | opening => rwa [hpc] at h
  | couldntOpen => rwa [hpc] at h
  | reading => rwa [hpc] at h
  | sending data => rwa [hpc] at h
  | ending =>
      rw [hpc] at h
      obtain ⟨content, hfile, hall, hstarts, hcalm⟩ := h
      exact ⟨content, hfile, hall, hstarts, fun hc => (hcalm hc).imp_right hgone⟩
  | exited =>
      rw [hpc] at h
      rcases h with ⟨hall, hstarts, hcalm⟩ | h
      · exact .inl ⟨hall, hstarts, fun hc => hgone (hcalm hc)⟩
      · exact .inr h

/-- One more message for a client that has asked. -/
theorem Listens.deliver {cl : Client} {queue delivered : List ResponseMsg}
    (h : Listens cl (some queue) delivered) (hasked : cl.pc.Asked) (m : ResponseMsg) :
    Listens cl (some (queue ++ [m])) (delivered ++ [m]) := by
  rw [Listens] at h ⊢
  cases hpc : cl.pc with
  | start | getQueue | sendRequest =>
      rw [hpc] at hasked
      exact hasked.elim
  | receiveFirst =>
      rw [hpc] at h
      obtain ⟨hreceived, hqueue⟩ := h
      exact ⟨hreceived, congrArg some (congrArg (· ++ [m]) (Option.some.inj hqueue))⟩
  | receiveNext totBytes numMsgs =>
      rw [hpc] at h
      obtain ⟨⟨rest, hqueue, hdel⟩, hrest⟩ := h
      obtain rfl := Option.some.inj hqueue
      exact ⟨⟨_, rfl, by rw [hdel, List.append_assoc]⟩, hrest⟩
  | exiting result =>
      rw [hpc] at h
      obtain ⟨⟨rest, hqueue, hdel⟩, hrest⟩ := h
      obtain rfl := Option.some.inj hqueue
      exact ⟨⟨_, rfl, by rw [hdel, List.append_assoc]⟩, hrest⟩
  | exited result =>
      rw [hpc] at h
      cases h.1

theorem fileBytes_append (msgs msgs' : List ResponseMsg) :
    fileBytes (msgs ++ msgs') = fileBytes msgs ++ fileBytes msgs' := by
  rw [fileBytes, List.filter_append, texts_append]
  rfl

theorem AllData.fileBytes {msgs : List ResponseMsg} (h : AllData msgs) :
    fileBytes msgs = texts msgs := by
  rw [SvMsg.fileBytes, List.filter_eq_self.mpr fun m hm => decide_eq_true (h m hm)]

theorem fileBytes_mono {msgs msgs' : List ResponseMsg} (h : msgs <+: msgs') :
    fileBytes msgs <+: fileBytes msgs' := by
  obtain ⟨rest, rfl⟩ := h
  rw [fileBytes_append]
  exact List.prefix_append _ _

/-- The bytes of a file that a child has sent are the first of its file. -/
theorem Talks.fileBytes {env : Env} {calm : Prop} {ch : Child} {queue : Option (List ResponseMsg)}
    {delivered : List ResponseMsg} (h : Talks env calm ch queue delivered) :
    fileBytes delivered <+: (env.files ch.req.pathname).getD [] := by
  rw [Talks] at h
  cases hpc : ch.pc with
  | opening | couldntOpen =>
      rw [hpc] at h
      rw [h.1]
      exact List.nil_prefix
  | reading =>
      rw [hpc] at h
      obtain ⟨content, hfile, hall, htexts⟩ := h
      rw [hall.fileBytes, htexts, hfile]
      exact List.take_prefix _ _
  | sending data =>
      rw [hpc] at h
      obtain ⟨content, hfile, hall, htexts, -⟩ := h
      rw [hall.fileBytes, hfile]
      exact (List.prefix_append _ data).trans (htexts ▸ List.take_prefix _ _)
  | ending =>
      rw [hpc] at h
      obtain ⟨content, hfile, hall, hstarts, -⟩ := h
      rw [hall.fileBytes, hfile]
      exact hstarts
  | exited =>
      rw [hpc] at h
      rcases h with ⟨hall, hstarts, -⟩ | ⟨content, before, hfile, rfl, hall, hstarts, -⟩ | ⟨rfl, -⟩
      · rw [hall.fileBytes]
        exact hstarts
      · rw [fileBytes_append, hall.fileBytes, hfile]
        exact (List.append_nil _).symm ▸ hstarts
      · exact List.nil_prefix

/-- The last message for a client that asked for `path`: the end of the file, or that there is no
    such file. -/
def Answered (env : Env) (calm : Prop) (path : Path) (before : List ResponseMsg)
    (last : ResponseMsg) : Prop :=
  (∃ content, env.files path = some content ∧ last = { mtype := .ending, data := [] } ∧
    texts before <+: content ∧ (calm → texts before = content)) ∨
  (before = [] ∧ last.mtype = .failure ∧ (calm → env.files path = none))

theorem Talks.answered {env : Env} {calm : Prop} {ch : Child}
    {queue : Option (List ResponseMsg)} {delivered before : List ResponseMsg} {last : ResponseMsg}
    (h : Talks env calm ch queue delivered) (hstarts : before ++ [last] <+: delivered)
    (hlast : last.mtype ≠ .data) : Answered env calm ch.req.pathname before last := by
  have hmem : last ∈ delivered :=
    hstarts.subset (List.mem_append_right _ (List.mem_singleton_self _))
  rw [Talks] at h
  cases hpc : ch.pc with
  | opening | couldntOpen =>
      rw [hpc] at h
      rw [h.1] at hmem
      cases hmem
  | reading | sending | ending =>
      rw [hpc] at h
      obtain ⟨content, -, hall, -⟩ := h
      exact absurd (hall last hmem) hlast
  | exited =>
      rw [hpc] at h
      rcases h with ⟨hall, -⟩ | ⟨content, before', hfile, rfl, hall, htexts, hcalm⟩ | ⟨rfl, hnone⟩
      · exact absurd (hall last hmem) hlast
      · rcases List.prefix_concat_iff.mp hstarts with heq | hshort
        · obtain ⟨rfl, hend⟩ := List.append_inj' heq rfl
          exact .inl ⟨content, hfile, List.singleton_inj.mp hend, htexts, hcalm⟩
        · exact absurd (hall last (hshort.subset (List.mem_append_right _
            (List.mem_singleton_self _)))) hlast
      · rw [List.mem_singleton.mp hmem] at hstarts ⊢
        have hnil : before = [] := by
          have hlen := hstarts.length_le
          rw [List.length_append] at hlen
          exact List.eq_nil_of_length_eq_zero (by simpa using hlen)
        exact .inr ⟨hnil, rfl, hnone⟩

end LinuxCodeDemos.SvMsg

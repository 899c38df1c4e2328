/-
  LinuxCodeDemos.TcpFile.Download

  A download end to end: `receive_file` of `client.c` against `child_handler` and `send_file` of
  `server.c`.

  - The client asks with `CMD_SEND` and the name, and takes the same messages that it sends in an
    upload; its loop is that of the server's `receive_file`.
  - A file that the server cannot open is answered by the closing command alone, as an empty file
    is.
  - The local file is opened without `O_TRUNC`.
  - `main` copies the name of the local file with `strcpy` into its 256 bytes.
  - No `recv` of either side is checked.  `serverCounts` and `clientCounts` say how much each of
    them returns; the transfer is only followed where each returns all it asks for
    (`FullCounts`).  The last one of the client asks for four bytes and looks at the third.
-/

import LinuxCodeDemos.Lib.Run
import LinuxCodeDemos.TcpFile.Replace

namespace LinuxCodeDemos.TcpFile

open Lib

-- ============================================================================
-- The two programs
-- ============================================================================

/-- What `receive_file` of the client sends: the command and the name. -/
def requestFile (name : ClientName) : Except Fault (List UInt8) := do
  let command ← sealMessage (commandBody cmdSend)
  let nameMessage ← sealMessage (nameBody name)
  .ok (command ++ nameMessage)

/-- `bzero (local_file_name, 256)` and `strcpy (local_file_name, argv[4])`: the name as `open`
    reads it. -/
def copyLocalName (argv : List UInt8) : Except Fault (List UInt8) := do
  let localFileName ← store (List.replicate 256 0) 0 (argv ++ [0])
  .ok (cString localFileName)

/-- The client asks, the server answers, the client takes the answer.  `name` is `argv[3]`, the
    name at the server, and `localName` is `argv[4]`, the one at the client; the counts are what
    each `recv` of the server and of the client returns at most. -/
def download (env : ServerEnv) (name localName : List UInt8) (canOpen : List UInt8 → Bool)
    (disk : Disk) (serverCounts clientCounts : List Nat) : Except Fault (Disk × SessionEnd) := do
  let localFileName ← copyLocalName localName
  let request ← requestFile (scanName name)
  let session ← childHandler env { incoming := request, counts := serverCounts }
  let (_, disk, ending) ← clientReceiveFile (scanName name) localFileName canOpen disk
    { incoming := session.sent, counts := clientCounts }
  .ok (disk, ending)

-- ============================================================================
-- The request
-- ============================================================================

theorem nameFrame_eq_nameMessage {name : List UInt8} (hnul : ∀ b ∈ name, b ≠ 0)
    (hlen : name.length ≤ 254) : nameFrame name = nameMessage name := by
  rw [nameFrame, nameBody_scanName hnul hlen, nameMessage]

theorem requestFile_eq (argv : List UInt8) :
    requestFile (scanName argv)
      = .ok (sealedMessage (commandBody cmdSend) ++ nameFrame argv) := by
  rw [requestFile, sealMessage_commandBody, sealMessage_nameBody]
  rfl

theorem copyLocalName_eq {localName : List UInt8} (hnul : ∀ b ∈ localName, b ≠ 0) :
    copyLocalName localName
      = if localName.length ≤ 255 then .ok localName else .error .write := by
  split
  · next hle =>
      have hfit : 0 + (localName ++ [0]).length ≤ (List.replicate 256 (0 : UInt8)).length := by
        rw [List.length_append, List.length_replicate, List.length_singleton]
        omega
      have htext : ∀ b ∈ localName, decide (b ≠ 0) = true := fun b hb => decide_eq_true (hnul b hb)
      rw [copyLocalName, bind_of_ok (store_of_le hfit), splice, List.take_zero, List.nil_append,
        List.append_assoc, cString, List.takeWhile_append_of_pos htext, List.singleton_append,
        List.takeWhile_cons_of_neg (by decide), List.append_nil]
  · next hlong =>
      have hout : ¬ 0 + (localName ++ [0]).length ≤ (List.replicate 256 (0 : UInt8)).length := by
        rw [List.length_append, List.length_replicate, List.length_singleton]
        omega
      have hcond : ¬ (localName ++ [0] = [] ∨
          0 + (localName ++ [0]).length ≤ (List.replicate 256 (0 : UInt8)).length) :=
        fun h => h.elim (List.append_ne_nil_of_right_ne_nil _ (List.cons_ne_nil _ _)) hout
      rw [copyLocalName, store, if_neg hcond]
      rfl

/-- The command leads into `send_file`. -/
theorem childHandler_send {counts : List Nat} (h : Ample 6 counts) (env : ServerEnv)
    (rest : List UInt8) :
    childHandler env { incoming := sealedMessage (commandBody cmdSend) ++ rest, counts }
      = serverSendFile env { incoming := rest, counts := counts.tail } := by
  have hlen : (sealedMessage (commandBody cmdSend)).length = 6 := rfl
  have hrecv := recv_full (sealedMessage (commandBody cmdSend)) rest (hlen ▸ h)
    (show (6 : Int) = _ from rfl) zeroBuffer
    (show 0 + _ ≤ _ by rw [hlen, zeroBuffer_length]; decide)
  rw [splice_zeroBuffer] at hrecv
  have hcheck := packageCheck_sealed (show (commandBody cmdSend).length + 2 < 2 ^ 15 by decide)
    (List.replicate (bufferSize - (sealedMessage (commandBody cmdSend)).length) 0)
  have hcmd : charWord
      ((sealedMessage (commandBody cmdSend) ++ List.replicate
        (bufferSize - (sealedMessage (commandBody cmdSend)).length) 0).getD 2 0)
      ((sealedMessage (commandBody cmdSend) ++ List.replicate
        (bufferSize - (sealedMessage (commandBody cmdSend)).length) 0).getD 3 0)
      = cmdSend.toNat := by
    show charWord 2 0 = 2
    decide
  simp only [childHandler, hrecv, bind, Except.bind]
  rw [show packageCheck _ 6 = _ from hcheck]
  simp only [if_true]
  rw [if_neg (by rw [hcmd]; decide), if_pos hcmd]

-- ============================================================================
-- The answer
-- ============================================================================

/-- The file as the server sends it; nothing where there is no file. -/
def served (env : ServerEnv) (name : List UInt8) : List UInt8 := (env.content name).getD []

section Answer

variable {env : ServerEnv} {name localName : List UInt8} {canOpen : List UInt8 → Bool} {disk : Disk}
  {counts serverCounts clientCounts : List Nat}

/-- The answer to a name that arrives. -/
theorem serverSendFile_ok (hnul : ∀ b ∈ name, b ≠ 0) (hlen : name.length ≤ 254)
    (hchar : (name.length + 3) % 256 < 128) (h₁ : Ample 2 counts)
    (h₂ : Ample (name.length + 3) counts.tail) :
    serverSendFile env { incoming := nameMessage name, counts }
      = .ok { opened := some name, written := []
              sent := (fileChunks (served env name)).flatMap dataMessage ++ closing
              ending := .sent } := by
  have hname := receiveName_ok hnul hlen hchar h₁ h₂ []
  rw [List.append_nil] at hname
  simp only [serverSendFile, hname, sealMessage_commandBody, bind, Except.bind]
  rw [served]
  cases env.content name with
  | none =>
      rw [Option.getD_none, fileChunks, if_pos List.length_nil]
      rfl
  | some bytes =>
      simp only [sendDatas_eq]
      rfl

theorem serverSendFile_negative (hchar : 128 ≤ (name.length + 3) % 256) (h₁ : Ample 2 counts) :
    ∃ f, serverSendFile env { incoming := nameMessage name, counts } = .error f := by
  obtain ⟨f, hname⟩ := receiveName_negative hchar h₁ []
  rw [List.append_nil] at hname
  exact ⟨f, by simp only [serverSendFile, hname, bind, Except.bind]⟩

/-- What the client's `recv` calls ask for up to the end of this file; the closing command needs
    three bytes. -/
def answerRequests (content : List UInt8) : List Nat :=
  ((fileChunks content).flatMap fun c => [4, c.length + 2]) ++ [3]

/-- The client takes a readable answer. -/
theorem receiveOnto_answer {content : List UInt8}
    (hread : ∀ c ∈ fileChunks content, (c.length + 4) % 256 < 128)
    (hfull : FullCounts (answerRequests content) counts) :
    ∃ disk', receiveOnto true disk localName
        { incoming := (fileChunks content).flatMap dataMessage ++ closing, counts }
          = .ok (disk', .complete) ∧
      disk' localName = some (content ++ (disk.old localName).drop content.length) ∧
      ∀ other, other ≠ localName → disk' other = disk other := by
  have hle : ∀ c ∈ fileChunks content, c.length ≤ 2042 := fun c hc =>
    Nat.le_trans (fileChunks_le content c hc) (by omega)
  have hframes := receiveOnto_frames (frames_messages hle hread hfull) disk localName
  rw [fileChunks_flatten] at hframes
  exact hframes

/-- On any other answer it leaves its buffer. -/
theorem receiveOnto_negative {content : List UInt8}
    (hread : ¬ ∀ c ∈ fileChunks content, (c.length + 4) % 256 < 128)
    (hfull : FullCounts (answerRequests content) counts) :
    ∃ f, receiveOnto true disk localName
        { incoming := (fileChunks content).flatMap dataMessage ++ closing, counts }
      = .error f := by
  have hle : ∀ c ∈ fileChunks content, c.length ≤ 2042 := fun c hc =>
    Nat.le_trans (fileChunks_le content c hc) (by omega)
  have hlen := length_le_flatMap_dataMessage (fileChunks content)
  obtain ⟨f, hf⟩ := receiveDatas_unreadable (fileChunks content) hle hread
    (fullCounts_append_left hfull)
    (((fileChunks content).flatMap dataMessage ++ closing).length + 1) closing []
    (by rw [List.length_append]; omega)
  obtain ⟨file, hopen, -⟩ := openFile_receiveFlags (disk localName)
  have hloop := receiveInto_eq_receiveDatas
    (((fileChunks content).flatMap dataMessage ++ closing).length + 1)
    { incoming := (fileChunks content).flatMap dataMessage ++ closing, counts } file []
  rw [OpenFile.write_nil, hf] at hloop
  exact ⟨f, by simp only [receiveOnto, if_true, hopen, hloop, Except.map, bind, Except.bind]⟩

/-- The request is answered by `send_file`. -/
theorem download_eq (hnul : ∀ b ∈ name, b ≠ 0) (hlen : name.length ≤ 254)
    (hlocal : ∀ b ∈ localName, b ≠ 0) (hfits : localName.length ≤ 255)
    (hopen : canOpen localName = true) (h : Ample 6 serverCounts) :
    download env name localName canOpen disk serverCounts clientCounts =
      (serverSendFile env { incoming := nameMessage name, counts := serverCounts.tail }
        >>= fun session =>
          receiveOnto true disk localName
            { incoming := session.sent, counts := clientCounts }) := by
  rw [download, copyLocalName_eq hlocal, if_pos hfits, bind_of_ok rfl,
    bind_of_ok (requestFile_eq name), nameFrame_eq_nameMessage hnul hlen, childHandler_send h]
  simp only [clientReceiveFile, sealMessage_commandBody, sealMessage_nameBody, hopen, bind,
    Except.bind]
  cases serverSendFile env { incoming := nameMessage name, counts := serverCounts.tail } with
  | error f => rfl
  | ok session =>
      simp only
      cases receiveOnto true disk localName
        { incoming := session.sent, counts := clientCounts } <;> rfl

/-- A name of the local file that does not fit stops the client before it asks. -/
theorem download_longName (hlocal : ∀ b ∈ localName, b ≠ 0) (hlong : ¬ localName.length ≤ 255) :
    download env name localName canOpen disk serverCounts clientCounts = .error .write := by
  rw [download, copyLocalName_eq hlocal, if_neg hlong]
  rfl

/-- Where no `recv` is short, a download is complete exactly when the low byte of no length field
    is a negative `char` and the name of the local file fits its array; the local file then holds
    what the server has, and behind it the rest of a longer old file. -/
theorem download_iff (hlen : name.length ≤ 254) (hnul : ∀ b ∈ name, b ≠ 0)
    (hlocal : ∀ b ∈ localName, b ≠ 0) (hopen : canOpen localName = true)
    (hserver : FullCounts [6, 2, name.length + 3] serverCounts)
    (hclient : FullCounts (answerRequests (served env name)) clientCounts) :
    (∃ disk', download env name localName canOpen disk serverCounts clientCounts
          = .ok (disk', .complete) ∧
      disk' localName
        = some (served env name ++ (disk.old localName).drop (served env name).length) ∧
      ∀ other, other ≠ localName → disk' other = disk other) ↔
      localName.length ≤ 255 ∧ (name.length ≤ 124 ∨ 253 ≤ name.length) ∧
        ((served env name).length % 1024 = 0 ∨
          ((served env name).length % 1024 + 4) % 256 < 128) := by
  have hfield : (name.length ≤ 124 ∨ 253 ≤ name.length) ↔ (name.length + 3) % 256 < 128 := by
    omega
  obtain ⟨h₁, h₂, h₃, -⟩ := hserver
  rw [← fileChunks_readable, hfield]
  by_cases hfits : localName.length ≤ 255
  · rw [download_eq hnul hlen hlocal hfits hopen h₁]
    by_cases hchar : (name.length + 3) % 256 < 128
    · rw [bind_of_ok (serverSendFile_ok hnul hlen hchar h₂ h₃)]
      by_cases hread : ∀ c ∈ fileChunks (served env name), (c.length + 4) % 256 < 128
      · exact iff_of_true (receiveOnto_answer hread hclient) ⟨hfits, hchar, hread⟩
      · obtain ⟨f, hf⟩ := @receiveOnto_negative localName disk _ _ hread hclient
        rw [hf]
        exact iff_of_false (fun ⟨_, h, _⟩ => by cases h) fun h => hread h.2.2
    · obtain ⟨f, hf⟩ := @serverSendFile_negative env name _ (by omega) h₂
      rw [hf]
      exact iff_of_false (fun ⟨_, h, _⟩ => by cases h) fun h => hchar h.2.1
  · rw [download_longName hlocal hfits]
    exact iff_of_false (fun ⟨_, h, _⟩ => by cases h) fun h => hfits h.1

end Answer

/-- A server with one file of three bytes. -/
def threeByteEnv : ServerEnv :=
  { canWrite := fun _ => true, content := fun name => if name = [97] then some [1, 2, 3] else none }

/-- It goes over a longer file `b` of the client.  What is asked for comes in time each time, the
    last three bytes at the client without the fourth. -/
theorem download_iff_threeBytes :
    ∃ disk', download threeByteEnv [97] [98] (fun _ => true) (fun _ => some [9, 9, 9, 9])
        [6, 2, 4] [4, 5, 3] = .ok (disk', .complete) ∧
      disk' [98] = some ([1, 2, 3] ++ [9]) ∧
      ∀ other, other ≠ [98] → disk' other = some [9, 9, 9, 9] := by
  have hserver : FullCounts [6, 2, [(97 : UInt8)].length + 3] [6, 2, 4] := by
    simp [FullCounts, Ample]
  have hclient : FullCounts (answerRequests (served threeByteEnv [97])) [4, 5, 3] := by
    show FullCounts (answerRequests [1, 2, 3]) [4, 5, 3]
    simp [answerRequests, fileChunks, FullCounts, Ample]
  exact (download_iff (by decide) (by simp) (by simp) rfl hserver hclient).mpr
    ⟨by decide, .inl (by decide), .inr (by decide)⟩

end LinuxCodeDemos.TcpFile

/-
  LinuxCodeDemos.TcpFile.Replace

  What a completed transfer leaves in the destination file.

  `receive_file` of the server and of the client open the destination with
  `O_WRONLY | O_CREAT` and write the payload of every accepted data frame.  Nothing
  shortens the file, so what an old file had behind the last written byte stays: the
  content is what was sent exactly if the old file was not longer (`replaced_iff`).

  `Frames c payloads` says, turn by turn of the receive loop, that the connection brings data
  frames with these payloads and then the closing command.
-/

import LinuxCodeDemos.Lib.File
import LinuxCodeDemos.TcpFile.Corruption

namespace LinuxCodeDemos.TcpFile

open Lib

-- ============================================================================
-- Definitions
-- ============================================================================

/-- The files of a machine by name. -/
abbrev Disk := List UInt8 → Option (List UInt8)

/-- `O_WRONLY | O_CREAT`. -/
def receiveFlags : OpenFlags := { creat := true, trunc := false }

/-- The receive loop on its open file. -/
def receiveInto : Nat → Conn → OpenFile UInt8 → Except Fault (OpenFile UInt8 × SessionEnd)
  | 0, _, file => .ok (file, .running)
  | fuel + 1, c, file =>
      match receiveTurn c with
      | .error f => .error f
      | .ok .complete => .ok (file, .complete)
      | .ok .crcError => .ok (file, .crcError)
      | .ok (.accepted out c') => receiveInto fuel c' (file.write out)

/-- From `open` to `close`, in both programs: the files and how the loop ended. -/
def receiveOnto (canOpen : Bool) (disk : Disk) (name : List UInt8) (c : Conn) :
    Except Fault (Disk × SessionEnd) :=
  match if canOpen then openFile receiveFlags (disk name) else none with
  | none => .ok (disk, .notOpened)
  | some file => do
      let (file, ending) ← receiveInto (c.incoming.length + 1) c file
      .ok (Function.update disk name (some file.content), ending)

/-- `receive_file` of the server. -/
def serverReceiveFile (canOpen : List UInt8 → Bool) (disk : Disk) (c : Conn) :
    Except Fault (Disk × SessionEnd) := do
  let (c, fileName) ← receiveName c
  match fileName with
  | none => .ok (disk, .crcError)
  | some name => receiveOnto (canOpen name) disk name c

/-- `receive_file` of the client: what it sends, and what it does with the answer.  `localName`
    is `local_file_name`. -/
def clientReceiveFile (name : ClientName) (localName : List UInt8) (canOpen : List UInt8 → Bool)
    (disk : Disk) (c : Conn) : Except Fault (List UInt8 × Disk × SessionEnd) := do
  let command ← sealMessage (commandBody cmdSend)
  let nameMessage ← sealMessage (nameBody name)
  let (disk, ending) ← receiveOnto (canOpen localName) disk localName c
  .ok (command ++ nameMessage, disk, ending)

/-- The connection brings data frames with these payloads, which pass the check, and then the
    closing command. -/
inductive Frames : Conn → List (List UInt8) → Prop
  | complete {c : Conn} (h : receiveTurn c = .ok .complete) : Frames c []
  | data {c c' : Conn} {payload : List UInt8} {payloads : List (List UInt8)}
      (h : receiveTurn c = .ok (.accepted payload c')) (rest : Frames c' payloads) :
      Frames c (payload :: payloads)

-- ============================================================================
-- The loop
-- ============================================================================

theorem recv_inv {c c' : Conn} {buffer buffer' : List UInt8} {off : Nat} {len : Int}
    (h : recv c buffer off len = .ok (c', buffer')) :
    c'.incoming = c.incoming.drop (recvCount c len) ∧
      buffer' = splice buffer off (c.incoming.take (recvCount c len)) := by
  simp only [recv, store, bind, Except.bind] at h
  split at h
  · cases h
  · next hstore =>
      cases h
      split at hstore
      · cases hstore
        exact ⟨rfl, rfl⟩
      · cases hstore

theorem recvCount_le_incoming (c : Conn) (len : Int) : recvCount c len ≤ c.incoming.length := by
  rw [recvCount]
  split <;> split <;> omega

/-- The steps of a turn that accepts a frame. -/
theorem receiveTurn_accepted_inv {c c' : Conn} {out : List UInt8}
    (h : receiveTurn c = .ok (.accepted out c')) :
    ∃ c₁ b₁ b₂, recv c zeroBuffer 0 4 = .ok (c₁, b₁) ∧
      recv c₁ b₁ 4 (charWord (b₁.getD 0 0) (b₁.getD 1 0) - 2) = .ok (c', b₂) ∧
      packageCheck b₂ (charWord (b₁.getD 0 0) (b₁.getD 1 0) + 2) = .ok true := by
  simp only [receiveTurn, bind, Except.bind] at h
  split at h
  · cases h
  · next x h₁ =>
      obtain ⟨c₁, b₁⟩ := x
      simp only [] at h
      split at h
      · cases h
      · split at h
        · cases h
        · next y h₂ =>
            obtain ⟨c₂, b₂⟩ := y
            simp only [] at h
            split at h
            · cases h
            · next ret hcheck =>
                cases ret with
                | false => cases h
                | true =>
                    refine ⟨c₁, b₁, b₂, h₁, ?_, hcheck⟩
                    simp only [if_true] at h
                    repeat
                      split at h
                      · cases h
                    cases h
                    exact h₂

/-- A frame is only accepted if `recv` has brought a byte of it: two zero bytes are not the
    checksum of nothing. -/
theorem receiveTurn_accepted_lt {c c' : Conn} {out : List UInt8}
    (h : receiveTurn c = .ok (.accepted out c')) : c'.incoming.length < c.incoming.length := by
  obtain ⟨c₁, b₁, b₂, h₁, h₂, hcheck⟩ := receiveTurn_accepted_inv h
  obtain ⟨hc₁, hb₁⟩ := recv_inv h₁
  obtain ⟨hc₂, hb₂⟩ := recv_inv h₂
  have hle := recvCount_le_incoming c 4
  have hlen : c'.incoming.length ≤ c.incoming.length - recvCount c 4 := by
    rw [hc₂, hc₁, List.length_drop, List.length_drop]
    omega
  by_contra hge
  have hnone : recvCount c 4 = 0 := by omega
  rw [hnone, List.take_zero, splice_nil] at hb₁
  rw [hb₁] at hb₂ hcheck
  -- the first two bytes of the buffer are still zero
  have hblock : b₂ = [0, 0] ++ b₂.drop 2 := by
    rw [hb₂]
    rfl
  have hzero := packageCheck_block (show ([0, 0] : List UInt8).length = 2 from rfl)
    (Nat.le_refl 2) (by decide) (b₂.drop 2)
  rw [← hblock, show checksumOk [0, 0] = false by decide +kernel] at hzero
  have hlength : charWord (zeroBuffer.getD 0 0) (zeroBuffer.getD 1 0) + 2 = (2 : Nat) := by
    decide +kernel
  rw [hlength, hzero] at hcheck
  cases hcheck

/-- With enough turns the payloads are written one after the other. -/
theorem Frames.receiveInto {c : Conn} {payloads : List (List UInt8)} (h : Frames c payloads) :
    ∀ {fuel : Nat}, c.incoming.length < fuel → ∀ file : OpenFile UInt8,
      receiveInto fuel c file = .ok (file.write payloads.flatten, .complete) := by
  induction h with
  | complete hturn =>
      intro fuel hfuel file
      obtain ⟨n, rfl⟩ := Nat.exists_eq_add_of_lt hfuel
      rw [LinuxCodeDemos.TcpFile.receiveInto, hturn, List.flatten_nil, OpenFile.write_nil]
  | data hturn _ ih =>
      intro fuel hfuel file
      obtain ⟨n, rfl⟩ := Nat.exists_eq_add_of_lt hfuel
      have hlt := receiveTurn_accepted_lt hturn
      rw [LinuxCodeDemos.TcpFile.receiveInto, hturn]
      show LinuxCodeDemos.TcpFile.receiveInto _ _ _ = _
      rw [ih (by omega), List.flatten_cons, OpenFile.write_write]

/-- The loop writes to its file what `receiveDatas` collects. -/
theorem receiveInto_eq_receiveDatas (fuel : Nat) (c : Conn) (file : OpenFile UInt8)
    (written : List UInt8) :
    receiveInto fuel c (file.write written)
      = (receiveDatas fuel c written).map fun x => (file.write x.1, x.2) := by
  induction fuel generalizing c written with
  | zero => rfl
  | succ fuel ih =>
      rw [receiveInto, receiveDatas_succ]
      cases receiveTurn c with
      | error f => rfl
      | ok turn =>
          cases turn with
          | complete => rfl
          | crcError => rfl
          | accepted out c' =>
              show receiveInto fuel c' ((file.write written).write out) = _
              rw [OpenFile.write_write]
              exact ih c' (written ++ out)

/-- The data messages of a transfer are such frames. -/
theorem frames_messages {chunks : List (List UInt8)} :
    ∀ {counts : List Nat}, (∀ c ∈ chunks, c.length ≤ 2042) →
      (∀ c ∈ chunks, (c.length + 4) % 256 < 128) →
      FullCounts ((chunks.flatMap fun c => [4, c.length + 2]) ++ [3]) counts →
      Frames { incoming := chunks.flatMap dataMessage ++ closing, counts } chunks := by
  induction chunks with
  | nil =>
      intro counts _ _ hfull
      exact .complete (receiveTurn_closing hfull.1)
  | cons c chunks ih =>
      intro counts hle hchar hfull
      obtain ⟨h₁, h₂, hfull'⟩ := hfull
      refine .data ?_ (ih (fun d hd => hle d (List.mem_cons_of_mem _ hd))
        (fun d hd => hchar d (List.mem_cons_of_mem _ hd)) hfull')
      rw [List.flatMap_cons, List.append_assoc]
      exact receiveTurn_chunk (hle c (List.mem_cons_self ..)) (hchar c (List.mem_cons_self ..))
        h₁ h₂ _

-- ============================================================================
-- The file
-- ============================================================================

/-- What a file held; nothing if it did not exist. -/
def Disk.old (disk : Disk) (name : List UInt8) : List UInt8 := (disk name).getD []

theorem openFile_receiveFlags (old : Option (List UInt8)) :
    ∃ file, openFile receiveFlags old = some file ∧ file.content = old.getD [] ∧
      file.offset = 0 := by
  cases old with
  | none => exact ⟨_, rfl, rfl, rfl⟩
  | some bs => exact ⟨_, rfl, rfl, rfl⟩

/-- From `open` to `close`: the payloads lie over the beginning of the old file, and no other
    file changes. -/
theorem receiveOnto_frames {c : Conn} {payloads : List (List UInt8)} (h : Frames c payloads)
    (disk : Disk) (name : List UInt8) :
    ∃ disk', receiveOnto true disk name c = .ok (disk', .complete) ∧
      disk' name = some (payloads.flatten ++ (disk.old name).drop payloads.flatten.length) ∧
      ∀ other, other ≠ name → disk' other = disk other := by
  obtain ⟨file, hopen, hcontent, hoffset⟩ := openFile_receiveFlags (disk name)
  refine ⟨Function.update disk name (some (file.write payloads.flatten).content), ?_, ?_, ?_⟩
  · simp only [receiveOnto, if_true, hopen, h.receiveInto (Nat.lt_succ_self _), bind, Except.bind]
  · rw [Function.update_self, OpenFile.content_write hoffset, hcontent]
    rfl
  · intro other hne
    rw [Function.update_of_ne hne]

/-- The new content is the payloads alone exactly if the old file was not longer. -/
theorem append_drop_eq_iff (bs old : List UInt8) :
    some (bs ++ old.drop bs.length) = some bs ↔ old.length ≤ bs.length := by
  rw [Option.some.injEq, List.append_right_eq_self, List.drop_eq_nil_iff]

section Destination

variable (canOpen : List UInt8 → Bool) {payloads : List (List UInt8)}

theorem serverReceiveFile_frames (disk : Disk) {c c' : Conn} {name : List UInt8}
    (hname : receiveName c = .ok (c', some name)) (hopen : canOpen name = true)
    (hframes : Frames c' payloads) :
    ∃ disk', serverReceiveFile canOpen disk c = .ok (disk', .complete) ∧
      disk' name = some (payloads.flatten ++ (disk.old name).drop payloads.flatten.length) := by
  obtain ⟨disk', hrun, hcontent, -⟩ := receiveOnto_frames hframes disk name
  refine ⟨disk', ?_, hcontent⟩
  simp only [serverReceiveFile, hname, hopen, hrun, bind, Except.bind]

theorem clientReceiveFile_frames (disk : Disk) (argv : List UInt8) {localName : List UInt8}
    {c : Conn} (hopen : canOpen localName = true) (hframes : Frames c payloads) :
    ∃ sent disk', clientReceiveFile (scanName argv) localName canOpen disk c
        = .ok (sent, disk', .complete) ∧
      disk' localName
        = some (payloads.flatten ++ (disk.old localName).drop payloads.flatten.length) := by
  obtain ⟨disk', hrun, hcontent, -⟩ := receiveOnto_frames hframes disk localName
  refine ⟨sealedMessage (commandBody cmdSend) ++ nameFrame argv, disk', ?_, hcontent⟩
  simp only [clientReceiveFile, sealMessage_nameBody, sealMessage_commandBody, hopen, hrun, bind,
    Except.bind]

end Destination

/-- After a completed transfer the destination holds exactly the payloads of the data frames
    if and only if it was not longer than they are before, at the server and at the client. -/
theorem replaced_iff (canOpen : List UInt8 → Bool) (disk : Disk) {payloads : List (List UInt8)} :
    (∀ (c c' : Conn) (name : List UInt8), receiveName c = .ok (c', some name) →
      canOpen name = true → Frames c' payloads →
      ∃ disk', serverReceiveFile canOpen disk c = .ok (disk', .complete) ∧
        (disk' name = some payloads.flatten
          ↔ (disk.old name).length ≤ payloads.flatten.length)) ∧
    (∀ (argv localName : List UInt8) (c : Conn), canOpen localName = true → Frames c payloads →
      ∃ sent disk', clientReceiveFile (scanName argv) localName canOpen disk c
          = .ok (sent, disk', .complete) ∧
        (disk' localName = some payloads.flatten
          ↔ (disk.old localName).length ≤ payloads.flatten.length)) := by
  refine ⟨?_, ?_⟩
  · intro c c' name hname hopen hframes
    obtain ⟨disk', hrun, hcontent⟩ := serverReceiveFile_frames canOpen disk hname hopen hframes
    exact ⟨disk', hrun, by rw [hcontent, append_drop_eq_iff]⟩
  · intro argv localName c hopen hframes
    obtain ⟨sent, disk', hrun, hcontent⟩ := clientReceiveFile_frames canOpen disk argv hopen hframes
    exact ⟨sent, disk', hrun, by rw [hcontent, append_drop_eq_iff]⟩

/-- A file of one byte, from the first data frame on. -/
def oneByteConn : Conn := { incoming := dataMessage [7] ++ closing, counts := [] }

/-- The same behind the name `a`. -/
def oneByteUpload : Conn := { incoming := nameMessage [97] ++ oneByteConn.incoming, counts := [] }

theorem oneByteConn_frames : Frames oneByteConn [[7]] :=
  .data (@receiveTurn_chunk [7] (by decide) (by decide) [] (ample_nil 4) (ample_nil 3) closing)
    (.complete (receiveTurn_closing (ample_nil 3)))

theorem oneByteUpload_name : receiveName oneByteUpload = .ok (oneByteConn, some [97]) := by
  decide +kernel

/-- A file of one byte, at the server and at the client, over a file of one byte. -/
theorem replaced_one_byte :
    (∃ disk', serverReceiveFile (fun _ => true) (fun _ => some [1]) oneByteUpload
        = .ok (disk', .complete) ∧ disk' [97] = some [7]) ∧
    ∃ sent disk', clientReceiveFile (scanName [97]) [98] (fun _ => true) (fun _ => some [1])
        oneByteConn = .ok (sent, disk', .complete) ∧ disk' [98] = some [7] := by
  obtain ⟨hserver, hclient⟩ := replaced_iff (fun _ => true) (fun _ => some [1])
  obtain ⟨disk₁, hrun₁, hiff₁⟩ := hserver _ _ _ oneByteUpload_name rfl oneByteConn_frames
  obtain ⟨sent, disk₂, hrun₂, hiff₂⟩ := hclient [97] [98] _ rfl oneByteConn_frames
  exact ⟨⟨disk₁, hrun₁, hiff₁.mpr (by decide)⟩, sent, disk₂, hrun₂, hiff₂.mpr (by decide)⟩

/-- A file of one byte over a file of three: two old bytes stay. -/
theorem not_replaced_three_bytes :
    (∃ disk', serverReceiveFile (fun _ => true) (fun _ => some [1, 2, 3]) oneByteUpload
        = .ok (disk', .complete) ∧ disk' [97] = some [7, 2, 3] ∧
          disk' [97] ≠ some [[7]].flatten) ∧
    ∃ sent disk', clientReceiveFile (scanName [97]) [98] (fun _ => true)
        (fun _ => some [1, 2, 3]) oneByteConn = .ok (sent, disk', .complete) ∧
      disk' [98] = some [7, 2, 3] ∧ disk' [98] ≠ some [[7]].flatten := by
  obtain ⟨disk₁, hrun₁, hcontent₁⟩ := serverReceiveFile_frames (fun _ => true)
    (fun _ => some [1, 2, 3]) oneByteUpload_name rfl oneByteConn_frames
  obtain ⟨sent, disk₂, hrun₂, hcontent₂⟩ := clientReceiveFile_frames (fun _ => true)
    (fun _ => some [1, 2, 3]) [97] (show (fun _ => true) [98] = true from rfl) oneByteConn_frames
  refine ⟨⟨disk₁, hrun₁, hcontent₁, ?_⟩, sent, disk₂, hrun₂, hcontent₂, ?_⟩
  · rw [hcontent₁]
    decide
  · rw [hcontent₂]
    decide

end LinuxCodeDemos.TcpFile

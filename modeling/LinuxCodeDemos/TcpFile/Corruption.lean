/-
  LinuxCodeDemos.TcpFile.Corruption

  Uploads with one frame damaged by a burst of at most 16 bits, everything
  else being delivered.

  The checksum sees every burst (`crcOf_burst`), but `receive_file` acts on the
  length and on the command before it looks at the checksum.  A data frame that
  turns into a closing command ends the transfer, and a changed length makes the
  server check another block or leave its buffer.  `notSilent_iff` says when the
  damage is reported.
-/

import LinuxCodeDemos.TcpFile.Burst
import LinuxCodeDemos.TcpFile.Segmentation
import LinuxCodeDemos.TcpFile.Upload

namespace LinuxCodeDemos.TcpFile

open Lib

-- ============================================================================
-- One message of arbitrary bytes
-- ============================================================================

/-- The length that the server reads at the start of a message. -/
def lengthOf (bs : List UInt8) : Int := charWord (bs.getD 0 0) (bs.getD 1 0)

/-- The command of a data message. -/
def commandOf (bs : List UInt8) : UInt8 := bs.getD 2 0

/-- The first `n` bytes that arrive; zeros stand for what is missing. -/
def blockOf (bs : List UInt8) (n : Nat) : List UInt8 := (bs.take n).rightpad n 0

/-- What `package_check` looks at when a message starts with `bs`. -/
def checkedBlock (bs : List UInt8) : List UInt8 := blockOf bs (lengthOf bs + 2).toNat

theorem blockOf_length (bs : List UInt8) (n : Nat) : (blockOf bs n).length = n := by
  rw [blockOf, List.length_rightpad, List.length_take]
  omega

/-- The bytes in a buffer that holds `bs` up to `k`. -/
theorem take_buffer (bs : List UInt8) {k m : Nat} (hk : k = m ∨ k = bs.length)
    (hm : m ≤ bufferSize) :
    (bs.take k ++ List.replicate (bufferSize - (bs.take k).length) 0).take m = blockOf bs m := by
  by_cases hlen : bs.length ≤ m
  · have hall : bs.take k = bs := List.take_of_length_le (by omega)
    rw [hall, blockOf, List.take_of_length_le hlen, List.rightpad, List.take_append,
      List.take_of_length_le hlen, List.take_replicate]
    congr 2
    omega
  · have hmk : m ≤ (bs.take k).length := by
      rw [List.length_take]
      omega
    have htake : (bs.take m).length = m := List.length_take_of_le (by omega)
    rw [List.take_append_of_le_length hmk, List.take_take, blockOf, List.rightpad, htake,
      Nat.sub_self, List.replicate_zero, List.append_nil]
    congr 1
    rw [List.length_take] at hmk
    omega

theorem ample_nil (n : Nat) : Ample n [] := fun _ h => nomatch h

section Message

variable {bs : List UInt8} {head : Nat} (hhead : head ≤ bs.length) (hfit : head ≤ bufferSize)

include hhead hfit

/-- The head of a message. -/
theorem recv_message_head :
    recv { incoming := bs, counts := [] } zeroBuffer 0 head
      = .ok ({ incoming := bs.drop head, counts := [] },
          bs.take head ++ List.replicate (bufferSize - head) 0) := by
  have hlen : (bs.take head).length = head := List.length_take_of_le hhead
  have hrecv := recv_full (bs.take head) (bs.drop head) (ample_nil _)
    (show (head : Int) = _ by rw [hlen]) zeroBuffer
    (by rw [hlen, zeroBuffer_length, Nat.zero_add]; exact hfit)
  rw [splice_zeroBuffer, hlen, List.take_append_drop] at hrecv
  exact hrecv

/-- The rest of it, and the check of the block that the length field asks for. -/
theorem recv_message_rest {len : Int} {n m : Nat}
    (hn : recvCount { incoming := bs.drop head, counts := [] } len = n)
    (hroom : head + n ≤ bufferSize) (hm : 2 ≤ m) (hmfit : m ≤ bufferSize)
    (hend : head + n = m ∨ head + n = bs.length) :
    ∃ x, recv { incoming := bs.drop head, counts := [] }
        (bs.take head ++ List.replicate (bufferSize - head) 0) head len = .ok x ∧
      packageCheck x.2 m = .ok (checksumOk (blockOf bs m)) := by
  have hlen : (bs.take head).length = head := List.length_take_of_le hhead
  have hbuffer : (bs.take head ++ List.replicate (bufferSize - head) (0 : UInt8)).length
      = bufferSize := by
    rw [List.length_append, List.length_replicate, hlen]
    omega
  have hrecv := recv_of_count hn (bs.take head ++ List.replicate (bufferSize - head) 0)
    (show head + n ≤ _ by rw [hbuffer]; exact hroom)
  refine ⟨_, hrecv, ?_⟩
  have hsplice := splice_message (bs.take head) ((bs.drop head).take n)
  rw [hlen, ← List.append_assoc, ← List.take_add, ← hlen, ← List.length_append, hlen,
    ← List.take_add] at hsplice
  have hblock := take_buffer bs hend hmfit
  have hsplit := List.take_append_drop m
    (bs.take (head + n) ++ List.replicate (bufferSize - (bs.take (head + n)).length) 0)
  rw [hblock] at hsplit
  show packageCheck (splice _ head ((bs.drop head).take n)) m = _
  rw [hsplice, ← hsplit]
  have hsize : bufferSize = 2048 := rfl
  exact packageCheck_block (blockOf_length bs m) hm (by omega) _

end Message

theorem getD_buffer {bs : List UInt8} {head i : Nat} (hi : i < head) (hhead : head ≤ bs.length)
    (rest : List UInt8) : (bs.take head ++ rest).getD i 0 = bs.getD i 0 := by
  have hlen : i < (bs.take head).length := by
    rw [List.length_take]
    omega
  rw [List.getD_append _ _ _ _ hlen, List.getD_eq_getElem?_getD, List.getElem?_take_of_lt hi,
    List.getD_eq_getElem?_getD]

/-- How many bytes a call returns when nothing holds it up. -/
theorem recvCount_nil (bs : List UInt8) (len : Int) :
    recvCount { incoming := bs, counts := [] } len
      = if len < 0 then bs.length else min len.toNat bs.length := rfl

/-- The block that the length field asks for lies in the buffer. -/
def LengthFits (bs : List UInt8) : Prop := 0 ≤ lengthOf bs ∧ lengthOf bs + 2 ≤ bufferSize

/-- The rest of a data message fits the buffer.  A length below 2 makes `recv` take
    all there is. -/
def DataFits (bs : List UInt8) : Prop :=
  LengthFits bs ∧ (2 ≤ lengthOf bs ∨ bs.length ≤ bufferSize)

instance (bs : List UInt8) : Decidable (LengthFits bs) := inferInstanceAs (Decidable (_ ∧ _))

instance (bs : List UInt8) : Decidable (DataFits bs) := inferInstanceAs (Decidable (_ ∧ _))

/-- A length field that does not fit takes the server out of its buffer. -/
theorem recv_outside {bs buffer : List UInt8} (h : ¬ LengthFits bs)
    (hbuffer : buffer.length = bufferSize) (c : Conn) (off : Nat) (len : Int) :
    (∃ f, recv c buffer off len = .error f) ∨
      ∃ x, recv c buffer off len = .ok x ∧ packageCheck x.2 (lengthOf bs + 2) = .error .read := by
  obtain ⟨hlow, hhigh⟩ := charWord_bounds (bs.getD 0 0) (bs.getD 1 0)
  by_cases hneg : lengthOf bs < 0
  · exact recv_negative c off len hneg hlow hbuffer
  · cases hrecv : recv c buffer off len with
    | error f => exact .inl ⟨f, rfl⟩
    | ok x =>
        have hlen : (x.2.length : Int) < lengthOf bs + 2 := by
          rw [recv_length hrecv, hbuffer]
          rw [LengthFits] at h
          omega
        exact .inr ⟨x, rfl, packageCheck_long (by omega) (by unfold lengthOf; omega) hlen⟩

section DataTurn

variable {bs : List UInt8} (hfour : 4 ≤ bs.length)

include hfour

/-- The first `recv` of a turn, and what is read off it. -/
theorem recv_data_head :
    ∃ b, recv { incoming := bs, counts := [] } zeroBuffer 0 4
        = .ok ({ incoming := bs.drop 4, counts := [] }, b) ∧
      b = bs.take 4 ++ List.replicate (bufferSize - 4) 0 ∧ b.length = bufferSize ∧
      charWord (b.getD 0 0) (b.getD 1 0) = lengthOf bs ∧ b.getD 2 0 = commandOf bs := by
  have hlen : (bs.take 4).length = 4 := List.length_take_of_le hfour
  refine ⟨_, recv_message_head hfour (by decide), rfl, ?_, ?_, ?_⟩
  · rw [List.length_append, List.length_replicate, hlen]
    rfl
  · rw [getD_buffer (by omega) hfour, getD_buffer (by omega) hfour, lengthOf]
  · rw [getD_buffer (by omega) hfour, commandOf]

/-- A command to stop is obeyed. -/
theorem receiveDatas_command (hcmd : commandOf bs = cmdComplete) (fuel : Nat)
    (written : List UInt8) :
    receiveDatas (fuel + 1) { incoming := bs, counts := [] } written
      = .ok (written, .complete) := by
  obtain ⟨b, hrecv, _, _, _, hb⟩ := recv_data_head hfour
  simp only [receiveDatas, hrecv, hb, bind, Except.bind]
  rw [if_pos hcmd]

/-- A block that fails the check. -/
theorem receiveDatas_rejected (hcmd : commandOf bs ≠ cmdComplete) (hfits : DataFits bs)
    (hcheck : checksumOk (checkedBlock bs) = false) (fuel : Nat) (written : List UInt8) :
    receiveDatas (fuel + 1) { incoming := bs, counts := [] } written
      = .ok (written, .crcError) := by
  obtain ⟨b, hrecv, rfl, _, hlength, hb⟩ := recv_data_head hfour
  obtain ⟨⟨hpos, hlong⟩, hroom⟩ := hfits
  have hsize : bufferSize = 2048 := rfl
  have hn := recvCount_nil (bs.drop 4) (lengthOf bs - 2)
  rw [List.length_drop] at hn
  obtain ⟨x, hx, hxcheck⟩ := recv_message_rest hfour (by decide) hn
    (show 4 + _ ≤ bufferSize by split <;> omega)
    (show 2 ≤ (lengthOf bs + 2).toNat by omega) (by omega)
    (by split <;> omega)
  rw [show blockOf bs (lengthOf bs + 2).toNat = checkedBlock bs from rfl, hcheck,
    Int.toNat_of_nonneg (by omega)] at hxcheck
  exact receiveDatas_of_cut hrecv hlength (by rw [hb]; exact hcmd) hx hxcheck written

/-- A length that leads out of the buffer. -/
theorem receiveDatas_outside (hcmd : commandOf bs ≠ cmdComplete) (hfits : ¬ DataFits bs)
    (fuel : Nat) (written : List UInt8) :
    ∃ f, receiveDatas (fuel + 1) { incoming := bs, counts := [] } written = .error f := by
  obtain ⟨b, hrecv, _, hsize, hlength, hb⟩ := recv_data_head hfour
  simp only [receiveDatas, hrecv, hb, hlength, if_neg hcmd, bind, Except.bind]
  by_cases hlen : LengthFits bs
  · -- `recv` is asked for a negative length and the stream is longer than the buffer
    have hover : ¬ (2 ≤ lengthOf bs ∨ bs.length ≤ bufferSize) := fun h => hfits ⟨hlen, h⟩
    have hcount : recvCount { incoming := bs.drop 4, counts := [] } (lengthOf bs - 2)
        = bs.length - 4 := by
      rw [recvCount_nil, if_pos (by omega), List.length_drop]
    have hall : ((bs.drop 4).take (bs.length - 4)).length = bs.length - 4 := by
      rw [List.length_take, List.length_drop, Nat.min_self]
    have hstore : store b 4 ((bs.drop 4).take (bs.length - 4)) = .error .write := by
      rw [store, if_neg]
      rintro (hnil | hroom)
      · rw [hnil, List.length_nil] at hall
        rw [bufferSize] at hover
        omega
      · omega
    refine ⟨.write, ?_⟩
    simp only [recv, hcount, hstore, bind, Except.bind]
  · rcases recv_outside hlen hsize { incoming := bs.drop 4, counts := [] } 4 (lengthOf bs - 2)
      with ⟨f, hf⟩ | ⟨x, hx, hcheck⟩
    · exact ⟨f, by simp only [hf]⟩
    · exact ⟨.read, by simp only [hx, hcheck]⟩

end DataTurn

section NameTurn

variable {bs : List UInt8} (htwo : 2 ≤ bs.length)

include htwo

theorem recv_name_head :
    ∃ b, recv { incoming := bs, counts := [] } zeroBuffer 0 2
        = .ok ({ incoming := bs.drop 2, counts := [] }, b) ∧
      b = bs.take 2 ++ List.replicate (bufferSize - 2) 0 ∧ b.length = bufferSize ∧
      charWord (b.getD 0 0) (b.getD 1 0) = lengthOf bs := by
  have hlen : (bs.take 2).length = 2 := List.length_take_of_le htwo
  refine ⟨_, recv_message_head htwo (by decide), rfl, ?_, ?_⟩
  · rw [List.length_append, List.length_replicate, hlen]
    rfl
  · rw [getD_buffer (by omega) htwo, getD_buffer (by omega) htwo, lengthOf]

/-- A name that fails the check. -/
theorem receiveName_rejected (hfits : LengthFits bs)
    (hcheck : checksumOk (checkedBlock bs) = false) :
    ∃ c, receiveName { incoming := bs, counts := [] } = .ok (c, none) := by
  obtain ⟨b, hrecv, rfl, _, hlength⟩ := recv_name_head htwo
  obtain ⟨hpos, hlong⟩ := hfits
  have hn := recvCount_nil (bs.drop 2) (lengthOf bs)
  rw [List.length_drop, if_neg (by omega)] at hn
  obtain ⟨x, hx, hxcheck⟩ := recv_message_rest htwo (by decide) hn
    (show 2 + _ ≤ bufferSize by omega) (show 2 ≤ (lengthOf bs + 2).toNat by omega) (by omega)
    (by omega)
  rw [show blockOf bs (lengthOf bs + 2).toNat = checkedBlock bs from rfl, hcheck,
    Int.toNat_of_nonneg (by omega)] at hxcheck
  refine ⟨x.1, ?_⟩
  simp only [receiveName, hrecv, hlength, hx, hxcheck, bind, Except.bind]
  rfl

theorem receiveName_outside (hfits : ¬ LengthFits bs) :
    ∃ f, receiveName { incoming := bs, counts := [] } = .error f := by
  obtain ⟨b, hrecv, _, hsize, hlength⟩ := recv_name_head htwo
  simp only [receiveName, hrecv, hlength, bind, Except.bind]
  rcases recv_outside hfits hsize { incoming := bs.drop 2, counts := [] } 2 (lengthOf bs)
    with ⟨f, hf⟩ | ⟨x, hx, hcheck⟩
  · exact ⟨f, by simp only [hf]⟩
  · exact ⟨.read, by simp only [hx, hcheck]⟩

end NameTurn

-- ============================================================================
-- Damaged uploads
-- ============================================================================

/-- The name message for the argument `argv` of the client. -/
def nameFrame (argv : List UInt8) : List UInt8 := sealedMessage (nameBody (scanName argv))

/-- What `send_file` sends after the opening command, frame by frame. -/
def uploadFrames (argv content : List UInt8) : List (List UInt8) :=
  nameFrame argv :: ((fileChunks content).map dataMessage ++ [closing])

/-- Whatever the name is, the loop of `main` counts at most 256 bytes. -/
theorem scanNameLoop_bounds (argv : List UInt8) (turns i : Nat) (name : ClientName) :
    (scanNameLoop argv turns i name).fileName.length = name.fileName.length ∧
      (scanNameLoop argv turns i name).fileNameLength ≤ name.fileNameLength + turns := by
  induction turns generalizing i name with
  | zero => exact ⟨rfl, Nat.le_refl _⟩
  | succ turns ih =>
      rw [scanNameLoop]
      split
      · obtain ⟨hlen, hle⟩ := ih (i + 1)
          { fileName := name.fileName.set i (argv.getD i 0)
            fileNameLength := name.fileNameLength + 1 }
        rw [List.length_set] at hlen
        refine ⟨hlen, Nat.le_trans hle ?_⟩
        show name.fileNameLength + 1 + turns ≤ _
        omega
      · exact ⟨rfl, by show name.fileNameLength + 1 ≤ _; omega⟩

/-- The text of the name message. -/
def nameText (argv : List UInt8) : List UInt8 :=
  (scanName argv).fileName.take (scanName argv).fileNameLength

theorem nameText_length (argv : List UInt8) :
    (nameText argv).length = (scanName argv).fileNameLength ∧ (nameText argv).length ≤ 256 := by
  obtain ⟨hlen, hle⟩ := scanNameLoop_bounds argv 256 0
    { fileName := List.replicate 256 0, fileNameLength := 0 }
  have hsize : (scanName argv).fileName.length = 256 := by
    rw [scanName, hlen, List.length_replicate]
  have hcount : (scanName argv).fileNameLength ≤ 256 := by
    rw [scanName]
    omega
  rw [nameText, List.length_take, hsize]
  omega

theorem nameFrame_eq (argv : List UInt8) :
    nameFrame argv = sealedMessage (leBytes ((nameText argv).length + 2) ++ nameText argv) := by
  rw [nameFrame, nameBody, (nameText_length argv).1]
  rfl

theorem sealMessage_nameBody (argv : List UInt8) :
    sealMessage (nameBody (scanName argv)) = .ok (nameFrame argv) := by
  have hle := (nameText_length argv).2
  apply sealMessage_ok
  show (leBytes _ ++ nameText argv).length < 2 ^ 32
  rw [List.length_append, show ∀ n, (leBytes n).length = 2 from fun _ => rfl]
  omega

theorem sealMessage_commandBody (cmd : UInt8) :
    sealMessage (commandBody cmd) = .ok (sealedMessage (commandBody cmd)) :=
  sealMessage_ok (show 4 < 2 ^ 32 by omega)

theorem sendFile_frames (argv content : List UInt8) :
    sendFile (scanName argv) (some content)
      = .ok (sealedMessage (commandBody cmdReceive) ++ (uploadFrames argv content).flatten) := by
  simp only [sendFile, sealMessage_nameBody, sealMessage_commandBody, sendDatas_eq, bind,
    Except.bind]
  rw [uploadFrames, List.flatten_cons, List.flatten_append, List.flatMap_def,
    List.flatten_singleton, closing, List.append_assoc, List.append_assoc]

/-- The server can create the file that the stream names. -/
def Opens (env : ServerEnv) (stream : List UInt8) : Prop :=
  ∀ c name, receiveName { incoming := stream, counts := [] } = .ok (c, some name) →
    env.canWrite name = true

/-- A burst in one frame of an upload. -/
structure Damage (argv content : List UInt8) where
  before : List (List UInt8)
  frame : List UInt8
  after : List (List UInt8)
  error : List UInt8
  frames_eq : uploadFrames argv content = before ++ frame :: after
  length_eq : error.length = frame.length
  burst : IsBurst error

namespace Damage

variable {argv content : List UInt8} (d : Damage argv content)

/-- The frame as it arrives. -/
def hit : List UInt8 := xorBytes d.frame d.error

/-- What arrives from this frame on. -/
def tail : List UInt8 := d.hit ++ d.after.flatten

/-- What `receive_file` gets. -/
def stream : List UInt8 := d.before.flatten ++ d.tail

/-- The two bytes of the length are not hit. -/
def LengthIntact : Prop := d.error.getD 0 0 = 0 ∧ d.error.getD 1 0 = 0

/-- The original file and a completed transfer, or a reported error. -/
def NotSilent (env : ServerEnv) : Prop :=
  ∃ s, receiveFile env { incoming := d.stream, counts := [] } = .ok s ∧
    (s.ending = .complete ∧ s.written = content ∨ s.ending = .crcError)

/-- The received length keeps the server in its buffer. -/
def Fits : Prop := if d.before = [] then LengthFits d.tail else DataFits d.tail

/-- The length is another one, and the block it cuts out passes the check. -/
def Misread : Prop := ¬ d.LengthIntact ∧ checksumOk (checkedBlock d.tail) = true

/-- When the damage is reported: the frames before it can be read; a closing command
    is still one, or no closing command comes up, the length fits the buffer and, if
    it has changed, the block it cuts out fails the check. -/
def Detected : Prop :=
  (∀ f ∈ d.before, 0 ≤ lengthOf f) ∧
    (d.after = [] ∧ commandOf d.hit = cmdComplete ∨
      (d.before ≠ [] → commandOf d.hit ≠ cmdComplete) ∧ d.Fits ∧
        (d.LengthIntact ∨ checksumOk (checkedBlock d.tail) = false))

end Damage

/-- The kind of the frame that is hit. -/
theorem uploadFrames_cases {argv content frame : List UInt8} {before after : List (List UInt8)}
    (h : uploadFrames argv content = before ++ frame :: after) :
    (before = [] ∧ frame = nameFrame argv ∧ after ≠ []) ∨
    (∃ cs c cs', fileChunks content = cs ++ c :: cs' ∧
      before = nameFrame argv :: cs.map dataMessage ∧ frame = dataMessage c ∧ after ≠ []) ∨
    (before = nameFrame argv :: (fileChunks content).map dataMessage ∧ frame = closing ∧
      after = []) := by
  rw [uploadFrames] at h
  rcases List.cons_eq_append_iff.mp h with ⟨rfl, hrest⟩ | ⟨before, rfl, hrest⟩
  · obtain ⟨rfl, rfl⟩ := List.cons.inj hrest
    exact .inl ⟨rfl, rfl, by simp⟩
  · refine .inr ?_
    rcases List.append_eq_append_iff.mp hrest.symm with ⟨mid, hmap, hlast⟩ | ⟨mid, hmap, hlast⟩
    · cases mid with
      | nil =>
          rw [List.append_nil] at hmap
          obtain ⟨rfl, rfl⟩ := List.cons.inj hlast
          exact .inr ⟨by rw [hmap], rfl, rfl⟩
      | cons f mid =>
          obtain ⟨rfl, rfl⟩ := List.cons.inj hlast
          obtain ⟨cs, rest, hchunks, rfl, hmid⟩ := List.map_eq_append_iff.mp hmap
          obtain ⟨c, cs', rfl, rfl, rfl⟩ := List.map_eq_cons_iff.mp hmid
          exact .inl ⟨cs, c, cs', hchunks, rfl, rfl, by simp⟩
    · cases mid with
      | nil =>
          rw [List.append_nil] at hmap
          obtain ⟨rfl, rfl⟩ := List.cons.inj hlast
          exact .inr ⟨by rw [hmap], rfl, rfl⟩
      | cons f mid => simp at hlast

-- ============================================================================
-- The frames before the damage
-- ============================================================================

theorem lengthField_nonneg {n : Nat} (hn : n < 2 ^ 15) : 0 ≤ lengthField n ↔ n % 256 < 128 := by
  refine ⟨?_, ?_⟩
  · intro h
    by_contra hge
    have := (lengthField_neg (show 128 ≤ n % 256 by omega)).1
    omega
  · intro h
    rw [lengthField_eq h hn]
    omega

theorem lengthOf_nameFrame (argv : List UInt8) :
    lengthOf (nameFrame argv) = lengthField ((nameText argv).length + 2) := by
  rw [nameFrame_eq]
  rfl

theorem lengthOf_dataMessage (chunk : List UInt8) :
    lengthOf (dataMessage chunk) = lengthField (chunk.length + 4) := rfl

theorem nameFrame_length (argv : List UInt8) :
    (nameFrame argv).length = (nameText argv).length + 4 := by
  rw [nameFrame_eq, sealedMessage_length, List.length_append,
    show ∀ n, (leBytes n).length = 2 from fun _ => rfl]
  omega

section Prefix

variable {env : ServerEnv} {argv : List UInt8}
variable {cs : List (List UInt8)} (hle : ∀ c ∈ cs, c.length ≤ 2042)

/-- The name arrives, and the loop starts. -/
theorem receiveFile_name (hname : ((nameText argv).length + 2) % 256 < 128) {bytes : List UInt8}
    (hopen : Opens env (nameFrame argv ++ bytes)) :
    ∃ name, receiveFile env { incoming := nameFrame argv ++ bytes, counts := [] }
      = (receiveDatas (bytes.length + 1) { incoming := bytes, counts := [] } []).map
          fun x => { opened := some name, written := x.1, sent := [], ending := x.2 } := by
  have hle := (nameText_length argv).2
  obtain ⟨zeros, hrecv⟩ := receiveName_sealed (show (nameText argv).length + 4 ≤ bufferSize by
    rw [bufferSize]; omega) hname (ample_nil 2) (ample_nil _) bytes
  rw [← nameFrame_eq, List.tail_nil, List.tail_nil] at hrecv
  refine ⟨cString ((nameText argv ++ zeros).take 255), ?_⟩
  simp only [receiveFile, hrecv, hopen _ _ hrecv, bind, Except.bind, if_true]
  cases receiveDatas (bytes.length + 1) { incoming := bytes, counts := [] } [] <;> rfl

include hle

theorem forall_lengthOf_iff :
    (∀ f ∈ cs.map dataMessage, 0 ≤ lengthOf f) ↔ ∀ c ∈ cs, (c.length + 4) % 256 < 128 := by
  rw [List.forall_mem_map]
  refine forall₂_congr fun c hc => ?_
  have := hle c hc
  rw [lengthOf_dataMessage, lengthField_nonneg (by omega)]

/-- Readable frames bring the loop to what follows them. -/
theorem receiveFile_prefix
    (hread : ∀ f ∈ nameFrame argv :: cs.map dataMessage, 0 ≤ lengthOf f) {tail : List UInt8}
    (hopen : Opens env ((nameFrame argv :: cs.map dataMessage).flatten ++ tail)) :
    ∃ fuel name, receiveFile env
        { incoming := (nameFrame argv :: cs.map dataMessage).flatten ++ tail, counts := [] }
      = (receiveDatas (fuel + 1) { incoming := tail, counts := [] } cs.flatten).map
          fun x => { opened := some name, written := x.1, sent := [], ending := x.2 } := by
  have hle' := (nameText_length argv).2
  rw [List.forall_mem_cons, lengthOf_nameFrame, lengthField_nonneg (by omega),
    forall_lengthOf_iff hle] at hread
  obtain ⟨hname, hchunks⟩ := hread
  have hturns := length_le_flatMap_dataMessage cs
  obtain ⟨fuel, hfuel⟩ : ∃ fuel, (cs.flatMap dataMessage ++ tail).length + 1
      = fuel + 1 + cs.length := by
    rw [List.length_append]
    exact ⟨(cs.flatMap dataMessage).length + tail.length - cs.length, by omega⟩
  have hloop := receiveDatas_chunks cs hle hchunks (fullCounts_nil _) (fuel + 1) tail []
  rw [List.drop_nil, List.nil_append] at hloop
  rw [List.flatten_cons, ← List.flatMap_def, List.append_assoc] at hopen ⊢
  obtain ⟨name, hrun⟩ := receiveFile_name hname hopen
  exact ⟨fuel, name, by rw [hrun, hfuel, hloop]⟩

/-- An unreadable frame stops the server before. -/
theorem receiveFile_unreadable
    (hread : ¬ ∀ f ∈ nameFrame argv :: cs.map dataMessage, 0 ≤ lengthOf f) {tail : List UInt8}
    (hopen : Opens env ((nameFrame argv :: cs.map dataMessage).flatten ++ tail)) :
    ∃ f, receiveFile env
        { incoming := (nameFrame argv :: cs.map dataMessage).flatten ++ tail, counts := [] }
      = .error f := by
  have hle' := (nameText_length argv).2
  rw [List.forall_mem_cons, lengthOf_nameFrame, forall_lengthOf_iff hle] at hread
  rw [List.flatten_cons, ← List.flatMap_def, List.append_assoc] at hopen ⊢
  by_cases hname : 0 ≤ lengthField ((nameText argv).length + 2)
  · have hturns := length_le_flatMap_dataMessage cs
    obtain ⟨f, hf⟩ := receiveDatas_unreadable cs hle (fun h => hread ⟨hname, h⟩)
      (fullCounts_nil _) ((cs.flatMap dataMessage ++ tail).length + 1) tail []
      (by rw [List.length_append]; omega)
    rw [lengthField_nonneg (by omega)] at hname
    obtain ⟨name, hrun⟩ := receiveFile_name hname hopen
    refine ⟨f, ?_⟩
    rw [hrun, hf]
    rfl
  · -- the name itself has a negative length
    have hlen := nameFrame_length argv
    have hlength : lengthOf (nameFrame argv ++ (cs.flatMap dataMessage ++ tail))
        = lengthField ((nameText argv).length + 2) := by
      rw [← lengthOf_nameFrame, lengthOf, List.getD_append _ _ _ _ (by omega),
        List.getD_append _ _ _ _ (by omega), lengthOf]
    obtain ⟨f, hf⟩ := receiveName_outside
      (show 2 ≤ (nameFrame argv ++ (cs.flatMap dataMessage ++ tail)).length by
        rw [List.length_append]; omega)
      (fun hfits => hname (hlength ▸ hfits.1))
    refine ⟨f, ?_⟩
    simp only [receiveFile, hf, bind, Except.bind]

end Prefix

-- ============================================================================
-- The damaged frame
-- ============================================================================

theorem dataMessage_length (chunk : List UInt8) : (dataMessage chunk).length = chunk.length + 6 := by
  rw [dataMessage, sealedMessage_length, dataBody_length]

/-- No chunk is empty. -/
theorem fileChunks_ne_nil (content : List UInt8) : ∀ c ∈ fileChunks content, c ≠ [] := by
  fun_induction fileChunks content with
  | case1 content h => exact fun c hc => absurd hc List.not_mem_nil
  | case2 content h ih =>
      intro c hc
      rcases List.mem_cons.mp hc with rfl | hc
      · intro hnil
        have hlen := congrArg List.length hnil
        rw [List.length_take, List.length_nil] at hlen
        omega
      · exact ih c hc

namespace Damage

variable {argv content : List UInt8} (d : Damage argv content)

theorem hit_length : d.hit.length = d.frame.length := xorBytes_length d.length_eq

theorem four_le_frame : 4 ≤ d.frame.length := by
  rcases uploadFrames_cases d.frames_eq with ⟨_, hframe, _⟩ | ⟨_, c, _, _, _, hframe, _⟩ |
    ⟨_, hframe, _⟩
  · rw [hframe, nameFrame_length]
    omega
  · rw [hframe, dataMessage_length]
    omega
  · rw [hframe]
    decide

theorem four_le_tail : 4 ≤ d.tail.length := by
  have := d.four_le_frame
  rw [tail, List.length_append, d.hit_length]
  omega

theorem getD_tail {i : Nat} (hi : i < 4) : d.tail.getD i 0 = d.hit.getD i 0 := by
  have := d.four_le_frame
  rw [tail, List.getD_append _ _ _ _ (by rw [d.hit_length]; omega)]

theorem commandOf_tail : commandOf d.tail = commandOf d.hit := d.getD_tail (by omega)

theorem lengthOf_tail (h : d.LengthIntact) : lengthOf d.tail = lengthOf d.frame := by
  rw [lengthOf, d.getD_tail (by omega), d.getD_tail (by omega), hit, getD_xorBytes d.length_eq,
    getD_xorBytes d.length_eq, h.1, h.2, UInt8.xor_zero, UInt8.xor_zero, lengthOf]

/-- The frame clears the checksum register, the damaged one does not. -/
theorem crcOf_hit : crcOf d.hit ≠ (0, 0) := by
  have hclear : crcOf d.frame = (0, 0) := by
    rcases uploadFrames_cases d.frames_eq with ⟨_, hframe, _⟩ | ⟨_, c, _, _, _, hframe, _⟩ |
      ⟨_, hframe, _⟩
    · rw [hframe, nameFrame, crcOf_sealedMessage]
    · rw [hframe, dataMessage, crcOf_sealedMessage]
    · rw [hframe, closing, crcOf_sealedMessage]
  exact crcOf_burst d.length_eq d.burst hclear

/-- A message of its own length. -/
theorem checksumOk_hit (h : (lengthOf d.tail + 2).toNat = d.hit.length) :
    checksumOk (checkedBlock d.tail) = false := by
  have hlen := d.four_le_frame
  have hblock : checkedBlock d.tail = d.hit := by
    rw [checkedBlock, h, blockOf, tail, List.take_left, List.rightpad, Nat.sub_self,
      List.replicate_zero, List.append_nil]
  rw [hblock, ← Bool.not_eq_true, checksumOk_iff (by rw [d.hit_length]; omega)]
  exact d.crcOf_hit

/-- A closing command that is no longer one: its length field is two too long, so
    two zeros stand for the checksum. -/
theorem checksumOk_closing_hit (hafter : d.after = [])
    (h : (lengthOf d.tail + 2).toNat = d.hit.length + 2) :
    checksumOk (checkedBlock d.tail) = false := by
  have hblock : checkedBlock d.tail = d.hit ++ [0, 0] := by
    rw [checkedBlock, h, blockOf, tail, hafter, List.flatten_nil, List.append_nil,
      List.take_of_length_le (by omega), List.rightpad, Nat.add_sub_cancel_left]
    rfl
  rw [hblock, checksumOk, List.length_append, List.length_cons, List.length_cons, List.length_nil,
    Nat.add_sub_cancel, List.take_left, List.drop_left, decide_eq_false_iff_not, crcBytes_eq_iff]
  exact d.crcOf_hit

/-- With its length intact the frame fails the check. -/
theorem checksumOk_intact (hintact : d.LengthIntact) (hpos : 0 ≤ lengthOf d.tail) :
    checksumOk (checkedBlock d.tail) = false := by
  have hlength := d.lengthOf_tail hintact
  have hhit := d.hit_length
  rcases uploadFrames_cases d.frames_eq with ⟨_, hframe, _⟩ | ⟨cs, c, cs', hchunks, _, hframe, _⟩ |
    ⟨_, hframe, hafter⟩
  · have hle := (nameText_length argv).2
    apply d.checksumOk_hit
    rw [hlength, hframe, lengthOf_nameFrame] at hpos ⊢
    rw [lengthField_nonneg (by omega)] at hpos
    rw [lengthField_eq hpos (by omega), hhit, hframe, nameFrame_length]
    omega
  · have hc : c.length ≤ 1024 := fileChunks_le content c (by rw [hchunks]; simp)
    apply d.checksumOk_hit
    rw [hlength, hframe, lengthOf_dataMessage] at hpos ⊢
    rw [lengthField_nonneg (by omega)] at hpos
    rw [lengthField_eq hpos (by omega), hhit, hframe, dataMessage_length]
    omega
  · apply d.checksumOk_closing_hit hafter
    rw [hlength, hhit, hframe]
    decide

-- ============================================================================
-- When damage is reported
-- ============================================================================

section Runs

variable {env : ServerEnv} (hopen : Opens env d.stream)

/-- A damaged name. -/
theorem notSilent_of_name (hbefore : d.before = []) (hfits : LengthFits d.tail)
    (hcheck : checksumOk (checkedBlock d.tail) = false) : d.NotSilent env := by
  have htwo : 2 ≤ d.tail.length := Nat.le_trans (by omega) d.four_le_tail
  obtain ⟨c, hc⟩ := receiveName_rejected htwo hfits hcheck
  refine ⟨{ opened := none, written := [], sent := [], ending := .crcError }, ?_, .inr rfl⟩
  rw [stream, hbefore, List.flatten_nil, List.nil_append]
  simp only [receiveFile, hc, bind, Except.bind]

theorem silent_of_name (hbefore : d.before = []) (hfits : ¬ LengthFits d.tail) :
    ¬ d.NotSilent env := by
  have htwo : 2 ≤ d.tail.length := Nat.le_trans (by omega) d.four_le_tail
  obtain ⟨f, hf⟩ := receiveName_outside htwo hfits
  rintro ⟨s, hs, _⟩
  rw [stream, hbefore, List.flatten_nil, List.nil_append] at hs
  simp only [receiveFile, hf, bind, Except.bind] at hs
  cases hs

section Loop

variable {cs : List (List UInt8)} (hle : ∀ c ∈ cs, c.length ≤ 2042)
variable (hbefore : d.before = nameFrame argv :: cs.map dataMessage)

include hopen hle hbefore

theorem silent_of_unreadable (hread : ¬ ∀ f ∈ d.before, 0 ≤ lengthOf f) : ¬ d.NotSilent env := by
  rw [hbefore] at hread
  rw [stream, hbefore] at hopen
  obtain ⟨f, hf⟩ := receiveFile_unreadable hle hread hopen
  rintro ⟨s, hs, _⟩
  rw [stream, hbefore, hf] at hs
  cases hs

variable (hread : ∀ f ∈ d.before, 0 ≤ lengthOf f)

include hread

/-- A closing command completes the transfer with what has been written. -/
theorem notSilent_of_complete (hcmd : commandOf d.hit = cmdComplete) :
    d.NotSilent env ↔ cs.flatten = content := by
  rw [hbefore] at hread
  rw [stream, hbefore] at hopen
  obtain ⟨fuel, name, hrun⟩ := receiveFile_prefix hle hread hopen
  rw [receiveDatas_command d.four_le_tail (d.commandOf_tail.trans hcmd)] at hrun
  rw [NotSilent, stream, hbefore, hrun]
  refine ⟨?_, ?_⟩
  · rintro ⟨s, hs, hend⟩
    cases hs
    rcases hend with ⟨_, hwritten⟩ | hend
    · exact hwritten
    · cases hend
  · intro h
    exact ⟨_, rfl, .inl ⟨rfl, h⟩⟩

theorem notSilent_of_rejected (hcmd : commandOf d.hit ≠ cmdComplete) (hfits : DataFits d.tail)
    (hcheck : checksumOk (checkedBlock d.tail) = false) : d.NotSilent env := by
  rw [hbefore] at hread
  rw [stream, hbefore] at hopen
  obtain ⟨fuel, name, hrun⟩ := receiveFile_prefix hle hread hopen
  rw [receiveDatas_rejected d.four_le_tail (d.commandOf_tail ▸ hcmd) hfits hcheck] at hrun
  rw [NotSilent, stream, hbefore, hrun]
  exact ⟨_, rfl, .inr rfl⟩

theorem silent_of_outside (hcmd : commandOf d.hit ≠ cmdComplete) (hfits : ¬ DataFits d.tail) :
    ¬ d.NotSilent env := by
  rw [hbefore] at hread
  rw [stream, hbefore] at hopen
  obtain ⟨fuel, name, hrun⟩ := receiveFile_prefix hle hread hopen
  obtain ⟨f, hf⟩ := receiveDatas_outside d.four_le_tail (d.commandOf_tail ▸ hcmd) hfits fuel
    cs.flatten
  rw [hf] at hrun
  rintro ⟨s, hs, _⟩
  rw [stream, hbefore, hrun] at hs
  cases hs

end Loop

theorem fits_iff_of_loop {f : List UInt8} {fs : List (List UInt8)} (hbefore : d.before = f :: fs) :
    d.Fits ↔ DataFits d.tail := by
  rw [Fits, if_neg (by rw [hbefore]; exact List.cons_ne_nil _ _)]

theorem fits_iff_of_name (hbefore : d.before = []) : d.Fits ↔ LengthFits d.tail := by
  rw [Fits, if_pos hbefore]

theorem Fits.nonneg {d : Damage argv content} (h : d.Fits) : 0 ≤ lengthOf d.tail := by
  rw [Fits] at h
  split at h
  · exact h.1
  · exact h.1.1

/-- A frame that is taken for data and fits the buffer fails the check. -/
theorem rejected_of_fits (hfits : d.Fits)
    (h : d.LengthIntact ∨ checksumOk (checkedBlock d.tail) = false) :
    checksumOk (checkedBlock d.tail) = false := by
  rcases h with hintact | hcheck
  · exact d.checksumOk_intact hintact hfits.nonneg
  · exact hcheck

theorem intact_or_rejected (h : ¬ d.Misread) :
    d.LengthIntact ∨ checksumOk (checkedBlock d.tail) = false := by
  by_cases hintact : d.LengthIntact
  · exact .inl hintact
  · refine .inr (Bool.eq_false_iff.mpr fun hcheck => h ⟨hintact, hcheck⟩)

/-- The chunks before a data frame are not the whole file. -/
theorem flatten_ne_content {cs cs' : List (List UInt8)} {c : List UInt8}
    (h : fileChunks content = cs ++ c :: cs') : cs.flatten ≠ content := by
  intro heq
  have hflat := fileChunks_flatten content
  have hne := fileChunks_ne_nil content c (by rw [h]; simp)
  rw [h, List.flatten_append, List.flatten_cons, ← heq] at hflat
  have hnil := List.append_right_eq_self.mp hflat
  exact hne (List.append_eq_nil_iff.mp hnil).1

include hopen in
/-- A burst of at most 16 bits in one frame of an upload is reported whenever the
    server is not misled before it checks the frame.  If no block of another length
    passes the check by accident, it is reported only then. -/
theorem notSilent_iff :
    (d.Detected → d.NotSilent env) ∧ (¬ d.Misread → d.NotSilent env → d.Detected) := by
  have hle : ∀ c ∈ fileChunks content, c.length ≤ 2042 := fun c hc =>
    Nat.le_trans (fileChunks_le content c hc) (by omega)
  rcases uploadFrames_cases d.frames_eq with ⟨hbefore, _, hafter⟩ |
    ⟨cs, c, cs', hchunks, hbefore, _, hafter⟩ | ⟨hbefore, _, hafter⟩
  · -- the name
    refine ⟨?_, ?_⟩
    · rintro ⟨_, ⟨hend, _⟩ | ⟨_, hfits, hcheck⟩⟩
      · exact absurd hend hafter
      · exact d.notSilent_of_name hbefore ((d.fits_iff_of_name hbefore).mp hfits)
          (d.rejected_of_fits hfits hcheck)
    · intro hmis hsafe
      have hfits : d.Fits := by
        rw [d.fits_iff_of_name hbefore]
        by_contra hout
        exact d.silent_of_name hbefore hout hsafe
      refine ⟨by simp [hbefore], .inr ⟨fun h => absurd hbefore h, hfits, ?_⟩⟩
      exact d.intact_or_rejected hmis
  · -- a data frame
    have hle' : ∀ x ∈ cs, x.length ≤ 2042 := fun x hx => hle x (by rw [hchunks]; simp [hx])
    refine ⟨?_, ?_⟩
    · rintro ⟨hread, ⟨hend, _⟩ | ⟨hcmd, hfits, hcheck⟩⟩
      · exact absurd hend hafter
      · exact d.notSilent_of_rejected hopen hle' hbefore hread
          (hcmd (by rw [hbefore]; exact List.cons_ne_nil _ _))
          ((d.fits_iff_of_loop hbefore).mp hfits) (d.rejected_of_fits hfits hcheck)
    · intro hmis hsafe
      have hread : ∀ f ∈ d.before, 0 ≤ lengthOf f := by
        by_contra hbad
        exact d.silent_of_unreadable hopen hle' hbefore hbad hsafe
      have hcmd : commandOf d.hit ≠ cmdComplete := fun hcmd =>
        flatten_ne_content hchunks
          ((d.notSilent_of_complete hopen hle' hbefore hread hcmd).mp hsafe)
      have hfits : d.Fits := by
        rw [d.fits_iff_of_loop hbefore]
        by_contra hout
        exact d.silent_of_outside hopen hle' hbefore hread hcmd hout hsafe
      exact ⟨hread, .inr ⟨fun _ => hcmd, hfits, d.intact_or_rejected hmis⟩⟩
  · -- the closing command
    refine ⟨?_, ?_⟩
    · rintro ⟨hread, ⟨_, hcmd⟩ | ⟨hcmd, hfits, hcheck⟩⟩
      · rw [d.notSilent_of_complete hopen hle hbefore hread hcmd]
        exact fileChunks_flatten content
      · exact d.notSilent_of_rejected hopen hle hbefore hread
          (hcmd (by rw [hbefore]; exact List.cons_ne_nil _ _))
          ((d.fits_iff_of_loop hbefore).mp hfits) (d.rejected_of_fits hfits hcheck)
    · intro hmis hsafe
      have hread : ∀ f ∈ d.before, 0 ≤ lengthOf f := by
        by_contra hbad
        exact d.silent_of_unreadable hopen hle hbefore hbad hsafe
      refine ⟨hread, ?_⟩
      by_cases hcmd : commandOf d.hit = cmdComplete
      · exact .inl ⟨hafter, hcmd⟩
      · have hfits : d.Fits := by
          rw [d.fits_iff_of_loop hbefore]
          by_contra hout
          exact d.silent_of_outside hopen hle hbefore hread hcmd hout hsafe
        exact .inr ⟨fun _ => hcmd, hfits, d.intact_or_rejected hmis⟩

end Runs

end Damage

/-- A burst in the data frame of a file of one byte. -/
def dataDamage (error : List UInt8) (hlen : error.length = 7) (hburst : IsBurst error) :
    Damage [97] [7] where
  before := [nameFrame [97]]
  frame := dataMessage [7]
  after := [closing]
  error := error
  frames_eq := by simp [uploadFrames, fileChunks]
  length_eq := hlen
  burst := hburst

/-- One bit of the data is flipped. -/
def flippedData : Damage [97] [7] :=
  dataDamage [0, 0, 0, 0, 1, 0, 0] rfl ⟨32, 23, [true], by decide, by decide, by decide⟩

/-- Three bits turn the command 3 into 4. -/
def flippedCommand : Damage [97] [7] :=
  dataDamage [0, 0, 7, 0, 0, 0, 0] rfl ⟨16, 37, [true, true, true], by decide, by decide, by decide⟩

theorem notSilent_flippedData :
    Opens openEnv flippedData.stream ∧ flippedData.NotSilent openEnv := by
  have hopen : Opens openEnv flippedData.stream := fun _ _ _ => rfl
  refine ⟨hopen, (flippedData.notSilent_iff hopen).1 ⟨?_, .inr ⟨?_, ?_, .inl ?_⟩⟩⟩
  · rintro f hf
    rw [List.mem_singleton.mp hf]
    decide +kernel
  · intro _
    decide +kernel
  · rw [Damage.fits_iff_of_loop flippedData rfl]
    decide +kernel
  · exact ⟨rfl, rfl⟩

/-- The server completes an empty file. -/
theorem silent_flippedCommand :
    Opens openEnv flippedCommand.stream ∧
      receiveFile openEnv { incoming := flippedCommand.stream, counts := [] }
        = .ok { opened := some [97], written := [], sent := [], ending := .complete } ∧
      ¬ flippedCommand.NotSilent openEnv := by
  have hrun : receiveFile openEnv { incoming := flippedCommand.stream, counts := [] }
      = .ok { opened := some [97], written := [], sent := [], ending := .complete } := by
    decide +kernel
  refine ⟨fun _ _ _ => rfl, hrun, ?_⟩
  rintro ⟨s, hs, hend⟩
  rw [hrun] at hs
  cases hs
  rcases hend with ⟨_, hwritten⟩ | hend
  · cases hwritten
  · cases hend

end LinuxCodeDemos.TcpFile

/-
  LinuxCodeDemos.TcpFile.Segmentation

  How TCP may split a transfer.  The `recv` calls of the server return what has
  arrived, and the server never looks at how much that is.

  - If every call before the closing command returns all it asked for, the file
    does not depend on the split (`fileWritten_full`): the closing command itself
    may come in any pieces, its check fails before anything is written.
  - A split inside the opening command loses the file.
-/

import LinuxCodeDemos.TcpFile.Transfer

namespace LinuxCodeDemos.TcpFile

open Lib

/-- What the server has written at the end of a connection, if it gets there. -/
def fileWritten (env : ServerEnv) (bytes : List UInt8) (counts : List Nat) :
    Option (List UInt8) :=
  (childHandler env { incoming := bytes, counts }).toOption.map Session.written

-- ============================================================================
-- Messages that are cut off
-- ============================================================================

/-- The buffer after bytes that do not fill the first `n`. -/
theorem splice_block (a b : List UInt8) {n : Nat} (hlen : a.length + b.length ≤ n)
    (hn : n ≤ bufferSize) :
    splice (a ++ List.replicate (bufferSize - a.length) 0) a.length b
      = (a ++ b).rightpad n 0 ++ List.replicate (bufferSize - n) 0 := by
  have hzeros : List.replicate (bufferSize - (a.length + b.length)) (0 : UInt8)
      = List.replicate (n - (a.length + b.length)) 0 ++ List.replicate (bufferSize - n) 0 := by
    rw [List.replicate_append_replicate]
    congr 1
    omega
  rw [splice_message, hzeros, List.rightpad, List.length_append, ← List.append_assoc,
    List.append_assoc (a ++ b)]

/-- The check of a message that is cut off: zeros stand for what is missing. -/
theorem packageCheck_cut (a b : List UInt8) {n : Nat} (hlen : a.length + b.length ≤ n)
    (h : 2 ≤ n) (hn : n ≤ bufferSize) :
    packageCheck (splice (a ++ List.replicate (bufferSize - a.length) 0) a.length b) n
      = .ok (checksumOk ((a ++ b).rightpad n 0)) := by
  have hblock : ((a ++ b).rightpad n 0).length = n := by
    rw [List.length_rightpad, List.length_append]
    omega
  have hsize : bufferSize = 2048 := rfl
  rw [splice_block a b hlen hn, packageCheck_block hblock h (by omega)]

/-- A call that returns less than `n`. -/
theorem exists_short {n : Nat} {counts : List Nat} (h : ¬ Ample n counts) :
    ∃ count rest, counts = count :: rest ∧ count < n := by
  cases counts with
  | nil => exact absurd (fun _ h => nomatch h) h
  | cons count rest =>
      refine ⟨count, rest, rfl, ?_⟩
      by_contra hge
      refine h fun m hm => ?_
      cases hm
      omega

theorem recvCount_le (c : Conn) (n : Nat) : recvCount c n ≤ n := by
  have havail : min ((n : Int).toNat) c.incoming.length ≤ n := by omega
  rw [recvCount, if_neg (by omega)]
  split
  · exact havail
  · exact Nat.le_trans (Nat.min_le_right ..) havail

/-- The opening command without its last bytes fails the check. -/
theorem checksumOk_opening : ∀ k < 6,
    checksumOk (((sealedMessage (commandBody cmdReceive)).take k).rightpad 6 0) = false := by
  decide +kernel

/-- A split inside the opening command. -/
theorem childHandler_short (env : ServerEnv) {c : Conn} {k : Nat} (hk : k < 6)
    (hcount : recvCount c 6 = k)
    (hbytes : c.incoming.take k = (sealedMessage (commandBody cmdReceive)).take k) :
    childHandler env c = .ok { opened := none, written := [], sent := [], ending := .crcError } := by
  have hrecv := recv_of_count hcount zeroBuffer
    (show 0 + k ≤ _ by rw [zeroBuffer_length, bufferSize]; omega)
  have hcheck := packageCheck_cut [] ((sealedMessage (commandBody cmdReceive)).take k)
    (show 0 + _ ≤ 6 by rw [List.length_take]; omega) (by decide) (by decide)
  rw [List.nil_append, List.nil_append, checksumOk_opening k hk] at hcheck
  rw [hbytes] at hrecv
  simp only [childHandler, hrecv, bind, Except.bind]
  rw [show packageCheck (splice zeroBuffer 0 _) 6 = _ from hcheck]
  rfl

/-- One turn of the receive loop that ends with a failed check. -/
theorem receiveDatas_of_cut {fuel : Nat} {c c₁ c₂ : Conn} {b₁ b₂ : List UInt8} {length : Int}
    (h₁ : recv c zeroBuffer 0 4 = .ok (c₁, b₁))
    (hlength : charWord (b₁.getD 0 0) (b₁.getD 1 0) = length) (hcmd : b₁.getD 2 0 ≠ cmdComplete)
    (h₂ : recv c₁ b₁ 4 (length - 2) = .ok (c₂, b₂))
    (hcheck : packageCheck b₂ (length + 2) = .ok false) (written : List UInt8) :
    receiveDatas (fuel + 1) c written = .ok (written, .crcError) := by
  simp only [receiveDatas, h₁, hlength, if_neg hcmd, h₂, hcheck, bind, Except.bind]
  rfl

/-- What the server sees of a closing command that is cut inside its length: the
    length is right and there is no command. -/
def cutHead : List UInt8 := [6, 0, 0, 0]

theorem rightpad_closing : ∀ k < 2, (closing.take (k + 1)).rightpad 4 0 = cutHead := by
  decide

/-- The rest of it is taken for data and fails the check. -/
theorem checksumOk_closing : ∀ k < 2, ∀ m < 5,
    checksumOk ((cutHead ++ (closing.drop (k + 1)).take m).rightpad 8 0) = false := by
  decide +kernel

theorem receiveDatas_closing_short {c : Conn} (hbytes : c.incoming = closing) {k : Nat}
    (hk : k < 2) (hcount : recvCount c 4 = k + 1) (fuel : Nat) (written : List UInt8) :
    receiveDatas (fuel + 1) c written = .ok (written, .crcError) := by
  have hfour : cutHead.length = 4 := rfl
  have hfirst := recv_of_count hcount zeroBuffer
    (show 0 + (k + 1) ≤ _ by rw [zeroBuffer_length, bufferSize]; omega)
  have hhead := splice_block [] (closing.take (k + 1))
    (show 0 + _ ≤ 4 by rw [List.length_take]; omega) (by decide)
  rw [List.nil_append, List.nil_append, rightpad_closing k hk] at hhead
  rw [hbytes, show splice zeroBuffer 0 _ = _ from hhead] at hfirst
  let rest : Conn := { incoming := closing.drop (k + 1), counts := c.counts.tail }
  have hle : recvCount rest 4 ≤ 4 := recvCount_le rest 4
  have hsecond := recv_of_count (show recvCount rest 4 = _ from rfl)
    (cutHead ++ List.replicate (bufferSize - 4) 0)
    (show 4 + recvCount rest 4 ≤ _ by
      rw [List.length_append, List.length_replicate, hfour, bufferSize]; omega)
  have hcheck := packageCheck_cut cutHead ((closing.drop (k + 1)).take (recvCount rest 4))
    (show 4 + _ ≤ 8 by rw [List.length_take]; omega) (by decide) (by decide)
  rw [checksumOk_closing k hk _ (by omega)] at hcheck
  exact receiveDatas_of_cut hfirst (show charWord 6 0 = 6 by decide)
    (show (0 : UInt8) ≠ cmdComplete by decide) hsecond hcheck written

/-- Nothing is written at the closing command, whatever part of it arrives. -/
theorem receiveDatas_closing_written {counts : List Nat} (hpos : ∀ n ∈ counts, 0 < n)
    (fuel : Nat) (written : List UInt8) :
    ∃ e, receiveDatas (fuel + 1) { incoming := closing, counts } written = .ok (written, e) := by
  by_cases hample : Ample 3 counts
  · exact ⟨.complete, receiveDatas_closing hample fuel written⟩
  · obtain ⟨count, counts, rfl, hlt⟩ := exists_short hample
    have hcount := hpos count (List.mem_cons_self ..)
    refine ⟨.crcError, receiveDatas_closing_short rfl (show count - 1 < 2 by omega) ?_ fuel
      written⟩
    show min count 4 = count - 1 + 1
    omega

-- ============================================================================
-- Whole connections
-- ============================================================================

namespace Transfer

/-- The file that a transfer leaves when every call returns all it asked for. -/
def fileLeft (T : Transfer) (env : ServerEnv) : Option (List UInt8) :=
  if (T.name.length + 3) % 256 < 128 then
    if env.canWrite T.name then
      if ∀ c ∈ T.chunks, (c.length + 4) % 256 < 128 then some T.content else none
    else some []
  else none

end Transfer

/-- The file does not depend on the counts. -/
theorem fileWritten_full (T : Transfer) (env : ServerEnv) {counts : List Nat}
    (hpos : ∀ n ∈ counts, 0 < n) (hfull : FullCounts T.requests counts) :
    fileWritten env T.bytes counts = T.fileLeft env := by
  rw [fileWritten, Transfer.fileLeft]
  by_cases hname : (T.name.length + 3) % 256 < 128
  · rw [if_pos hname]
    by_cases hopen : env.canWrite T.name = true
    · rw [if_pos hopen]
      by_cases hchunks : ∀ c ∈ T.chunks, (c.length + 4) % 256 < 128
      · obtain ⟨fuel, hrun⟩ := childHandler_transfer T hfull env ⟨hname, hchunks⟩ hopen
        obtain ⟨e, he⟩ := receiveDatas_closing_written
          (fun n hn => hpos n (List.mem_of_mem_drop hn)) fuel T.content
        rw [hrun, he, if_pos hchunks]
        rfl
      · obtain ⟨f, hf⟩ := childHandler_chunk_negative T hfull env hname hopen hchunks
        rw [hf, if_neg hchunks]
        rfl
    · rw [childHandler_name T hfull env hname, if_neg hopen, if_neg hopen]
      rfl
  · obtain ⟨f, hf⟩ := childHandler_name_negative T hfull env (by omega)
    rw [hf, if_neg hname]
    rfl

/-- A split inside the opening command loses the file. -/
theorem fileWritten_short (T : Transfer) (env : ServerEnv) {counts : List Nat}
    (hshort : ¬ Ample 6 counts) : fileWritten env T.bytes counts = some [] := by
  obtain ⟨count, counts, rfl, hlt⟩ := exists_short hshort
  have hbytes : T.bytes.take count = (sealedMessage (commandBody cmdReceive)).take count := by
    rw [Transfer.bytes, transferBytes, List.take_append_of_le_length]
    exact Nat.le_of_lt hlt
  have hlen : 6 ≤ T.bytes.length := by
    rw [Transfer.bytes, transferBytes, List.length_append, sealedMessage_length]
    exact Nat.le_add_right 6 _
  have hcount : recvCount { incoming := T.bytes, counts := count :: counts } 6 = count := by
    show min count (min 6 T.bytes.length) = count
    omega
  rw [fileWritten, childHandler_short env hlt hcount hbytes]
  rfl

/-- The server writes the same file for every split in which the calls before the
    closing command return all they ask for.  A split inside the opening command
    makes a difference for every file that is not empty. -/
theorem segmentation (T : Transfer) (env : ServerEnv) {counts : List Nat}
    (hpos : ∀ n ∈ counts, 0 < n) :
    (FullCounts T.requests counts →
      fileWritten env T.bytes counts = fileWritten env T.bytes []) ∧
    (¬ Ample 6 counts → T.Readable → env.canWrite T.name = true → T.content ≠ [] →
      fileWritten env T.bytes counts ≠ fileWritten env T.bytes []) := by
  have hwhole : fileWritten env T.bytes [] = T.fileLeft env :=
    fileWritten_full T env (List.forall_mem_nil _) (fullCounts_nil _)
  refine ⟨fun hfull => ?_, fun hshort hread hopen hne => ?_⟩
  · rw [hwhole, fileWritten_full T env hpos hfull]
  · rw [hwhole, fileWritten_short T env hshort, Transfer.fileLeft, if_pos hread.1, if_pos hopen,
      if_pos hread.2]
    exact fun h => hne (Option.some.inj h).symm

/-- One byte, sent to a file with a one-letter name. -/
def oneByteTransfer : Transfer where
  name := [97]
  chunks := [[7]]
  name_nul := by simp
  name_le := by decide
  chunk_le := by decide

/-- Only the closing command is split. -/
theorem segmentation_closing :
    fileWritten openEnv oneByteTransfer.bytes [6, 2, 4, 4, 3, 1]
      = fileWritten openEnv oneByteTransfer.bytes [] :=
  (segmentation oneByteTransfer openEnv (by decide)).1
    ⟨fun _ h => by cases h; decide, fun _ h => by cases h; decide, fun _ h => by cases h; decide,
      fun _ h => by cases h; decide, fun _ h => by cases h; decide, trivial⟩

/-- The first call returns one byte. -/
theorem segmentation_opening :
    (∀ n ∈ [1], 0 < n) ∧ fileWritten openEnv oneByteTransfer.bytes [1]
      ≠ fileWritten openEnv oneByteTransfer.bytes [] := by
  refine ⟨by decide, ?_⟩
  rw [fileWritten_short oneByteTransfer openEnv fun h => absurd (h 1 rfl) (by omega),
    fileWritten_full oneByteTransfer openEnv (List.forall_mem_nil _) (fullCounts_nil _)]
  decide

end LinuxCodeDemos.TcpFile

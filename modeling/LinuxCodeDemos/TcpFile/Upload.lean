/-
  LinuxCodeDemos.TcpFile.Upload

  An upload from end to end: `send_file` of the client into `child_handler` of
  the server, with every `recv` returning what it asked for.

  The client sends the transfer of the name and of the file in chunks of 1024
  bytes (`sendFile_eq`).  Only the name and the last chunk can have a length
  whose low byte is a negative `char`, and the upload works exactly when neither
  has (`upload_iff`).
-/

import Mathlib.Data.List.GetD
import LinuxCodeDemos.TcpFile.Transfer

namespace LinuxCodeDemos.TcpFile

open Lib

-- ============================================================================
-- The chunks of a file
-- ============================================================================

/-- What `read (filefd, filebuf, 1024)` returns, call after call. -/
def fileChunks (content : List UInt8) : List (List UInt8) :=
  if content.length = 0 then []
  else content.take 1024 :: fileChunks (content.drop 1024)
termination_by content.length
decreasing_by
  rw [List.length_drop]
  omega

theorem fileChunks_flatten (content : List UInt8) : (fileChunks content).flatten = content := by
  fun_induction fileChunks content with
  | case1 content h => rw [List.eq_nil_of_length_eq_zero h, List.flatten_nil]
  | case2 content h ih => rw [List.flatten_cons, ih, List.take_append_drop]

theorem fileChunks_le (content : List UInt8) : ∀ c ∈ fileChunks content, c.length ≤ 1024 := by
  fun_induction fileChunks content with
  | case1 content h => exact fun c hc => absurd hc List.not_mem_nil
  | case2 content h ih =>
      intro c hc
      rcases List.mem_cons.mp hc with rfl | hc
      · exact List.length_take_le ..
      · exact ih c hc

/-- Full chunks have length field 1028, so only the last chunk matters. -/
theorem fileChunks_readable (content : List UInt8) :
    (∀ c ∈ fileChunks content, (c.length + 4) % 256 < 128) ↔
      content.length % 1024 = 0 ∨ (content.length % 1024 + 4) % 256 < 128 := by
  fun_induction fileChunks content with
  | case1 content h =>
      refine iff_of_true (fun c hc => absurd hc List.not_mem_nil) (.inl ?_)
      rw [h]
  | case2 content h ih =>
      rw [List.forall_mem_cons, ih, List.length_take, List.length_drop]
      by_cases hfull : 1024 ≤ content.length
      · rw [Nat.min_eq_left hfull, Nat.mod_eq_sub_mod hfull]
        exact and_iff_right (by omega)
      · rw [Nat.min_eq_right (by omega), Nat.sub_eq_zero_of_le (by omega),
          Nat.mod_eq_of_lt (show content.length < 1024 by omega)]
        omega

-- ============================================================================
-- What the client sends
-- ============================================================================

/-- `file_name` after `i` turns, and what the remaining turns make of it. -/
theorem scanNameLoop_eq {name : List UInt8} (hnul : ∀ b ∈ name, b ≠ 0) (turns i : Nat)
    (hi : i ≤ name.length) (hturns : name.length < i + turns) (hsize : i + turns = 256) :
    scanNameLoop name turns i
        { fileName := name.take i ++ List.replicate (256 - i) 0, fileNameLength := i }
      = { fileName := name ++ List.replicate (256 - name.length) 0
          fileNameLength := name.length + 1 } := by
  induction turns generalizing i with
  | zero => omega
  | succ turns ih =>
      by_cases hend : i = name.length
      · -- the NUL
        rw [hend, scanNameLoop, List.getD_eq_default _ _ (Nat.le_refl _), if_neg (by decide),
          List.take_length]
      · have hlt : i < name.length := by omega
        have hget : name.getD i 0 = name[i] := List.getD_eq_getElem _ _ hlt
        have hset : (name.take i ++ List.replicate (256 - i) 0).set i name[i]
            = name.take (i + 1) ++ List.replicate (256 - (i + 1)) 0 := by
          have hlen : (name.take i).length = i := List.length_take_of_le hi
          rw [List.set_append_right _ _ (by omega), hlen, Nat.sub_self,
            show 256 - i = 256 - (i + 1) + 1 by omega, List.replicate_succ, List.set_cons_zero,
            List.take_succ_eq_append_getElem hlt, List.append_assoc]
          rfl
        rw [scanNameLoop, hget, if_pos (hnul _ (List.getElem_mem hlt))]
        simp only [hset]
        exact ih (i + 1) hlt (by omega) (by omega)

/-- The name with its NUL. -/
theorem scanName_eq {name : List UInt8} (hnul : ∀ b ∈ name, b ≠ 0) (hlen : name.length ≤ 254) :
    scanName name = { fileName := name ++ List.replicate (256 - name.length) 0
                      fileNameLength := name.length + 1 } :=
  scanNameLoop_eq hnul 256 0 (Nat.zero_le _) (by omega) rfl

theorem nameBody_scanName {name : List UInt8} (hnul : ∀ b ∈ name, b ≠ 0)
    (hlen : name.length ≤ 254) :
    nameBody (scanName name) = leBytes (name.length + 3) ++ (name ++ [0]) := by
  have hzeros : List.replicate (256 - name.length) (0 : UInt8)
      = 0 :: List.replicate (255 - name.length) 0 := by
    rw [show 256 - name.length = 255 - name.length + 1 by omega, List.replicate_succ]
  have htake : (name ++ List.replicate (256 - name.length) 0).take (name.length + 1)
      = name ++ [0] := by
    rw [List.take_append, List.take_of_length_le (by omega), Nat.add_sub_cancel_left, hzeros]
    rfl
  rw [scanName_eq hnul hlen, nameBody, htake]

theorem dataBody_length (chunk : List UInt8) : (dataBody chunk).length = chunk.length + 4 := by
  show (dataHead chunk ++ chunk).length = chunk.length + 4
  rw [List.length_append, show (dataHead chunk).length = 4 from rfl, Nat.add_comm]

/-- The read loop sends the chunks. -/
theorem sendDatas_eq (content : List UInt8) :
    sendDatas content = .ok ((fileChunks content).flatMap dataMessage) := by
  fun_induction fileChunks content with
  | case1 content h => rw [sendDatas, if_pos h, List.flatMap_nil]
  | case2 content h ih =>
      have hle := List.length_take_le 1024 content
      have hseal := sealMessage_ok (show (dataBody (content.take 1024)).length < 2 ^ 32 by
        rw [dataBody_length]; omega)
      rw [sendDatas, if_neg h, hseal, ih, List.flatMap_cons]
      rfl

/-- The stream of an upload. -/
theorem sendFile_eq {name : List UInt8} (hnul : ∀ b ∈ name, b ≠ 0) (hlen : name.length ≤ 254)
    (content : List UInt8) :
    sendFile (scanName name) (some content) = .ok (transferBytes name (fileChunks content)) := by
  have hname : sealMessage (nameBody (scanName name)) = .ok (nameMessage name) := by
    rw [nameBody_scanName hnul hlen, sealMessage_ok, nameMessage]
    rw [List.length_append, List.length_append, show (leBytes (name.length + 3)).length = 2 from rfl]
    simp only [List.length_cons, List.length_nil]
    omega
  have hcommand : ∀ cmd, sealMessage (commandBody cmd) = .ok (sealedMessage (commandBody cmd)) :=
    fun cmd => sealMessage_ok (show 4 < 2 ^ 32 by omega)
  simp only [sendFile, hname, hcommand, sendDatas_eq, bind, Except.bind]
  rw [transferBytes, closing, List.append_assoc, List.append_assoc]

/-- The upload as a transfer. -/
def uploadTransfer (name content : List UInt8) (hnul : ∀ b ∈ name, b ≠ 0)
    (hlen : name.length ≤ 254) : Transfer where
  name := name
  chunks := fileChunks content
  name_nul := hnul
  name_le := hlen
  chunk_le := fun c hc => Nat.le_trans (fileChunks_le content c hc) (by omega)

-- ============================================================================
-- End to end
-- ============================================================================

/-- The server opens `name` and writes `content` to it before the closing
    command. -/
def Uploaded (env : ServerEnv) (name content : List UInt8) : Prop :=
  ∃ stream, sendFile (scanName name) (some content) = .ok stream ∧
    childHandler env { incoming := stream, counts := [] }
      = .ok { opened := some name, written := content, sent := [], ending := .complete }

section Upload

variable {env : ServerEnv} {name content : List UInt8}

theorem uploaded_iff_childHandler (hnul : ∀ b ∈ name, b ≠ 0) (hlen : name.length ≤ 254) :
    Uploaded env name content ↔
      childHandler env { incoming := (uploadTransfer name content hnul hlen).bytes, counts := [] }
        = .ok { opened := some name, written := content, sent := [], ending := .complete } := by
  have hsend := sendFile_eq hnul hlen content
  refine ⟨?_, ?_⟩
  · rintro ⟨stream, hstream, hrun⟩
    rw [hsend] at hstream
    cases hstream
    exact hrun
  · exact fun hrun => ⟨_, hsend, hrun⟩

/-- No negative length field: the file arrives. -/
theorem uploaded_of_readable (hnul : ∀ b ∈ name, b ≠ 0) (hlen : name.length ≤ 254)
    (hopen : env.canWrite name = true) (hread : (uploadTransfer name content hnul hlen).Readable) :
    Uploaded env name content := by
  rw [uploaded_iff_childHandler hnul hlen]
  obtain ⟨fuel, hrun⟩ := childHandler_transfer (uploadTransfer name content hnul hlen)
    (fullCounts_nil _) env hread hopen
  rw [hrun, receiveDatas_closing (by rw [List.drop_nil]; exact fun _ h => nomatch h)]
  show Except.ok _ = _
  rw [show (uploadTransfer name content hnul hlen).content = content from fileChunks_flatten content]
  rfl

/-- A negative one: the server leaves its buffer. -/
theorem not_uploaded_of_negative (hnul : ∀ b ∈ name, b ≠ 0) (hlen : name.length ≤ 254)
    (hopen : env.canWrite name = true)
    (hread : ¬ (uploadTransfer name content hnul hlen).Readable) : ¬ Uploaded env name content := by
  rw [uploaded_iff_childHandler hnul hlen]
  have hfault : ∃ f, childHandler env
      { incoming := (uploadTransfer name content hnul hlen).bytes, counts := [] } = .error f := by
    by_cases hname : (name.length + 3) % 256 < 128
    · exact childHandler_chunk_negative _ (fullCounts_nil _) env hname hopen
        fun hchunks => hread ⟨hname, hchunks⟩
    · exact childHandler_name_negative (uploadTransfer name content hnul hlen) (fullCounts_nil _)
        env (by show 128 ≤ (name.length + 3) % 256; omega)
  obtain ⟨f, hf⟩ := hfault
  rw [hf]
  exact fun h => nomatch h

/-- An upload arrives exactly when the low byte of no length field is a negative
    `char`.  The field of the name is three more than its length, that of the last
    chunk four more. -/
theorem upload_iff (hpos : 1 ≤ name.length) (hlen : name.length ≤ 254) (hnul : ∀ b ∈ name, b ≠ 0)
    (hopen : env.canWrite name = true) :
    Uploaded env name content ↔
      (name.length ≤ 124 ∨ 253 ≤ name.length) ∧
        (content.length % 1024 = 0 ∨ (content.length % 1024 + 4) % 256 < 128) := by
  have hread : (uploadTransfer name content hnul hlen).Readable ↔
      (name.length ≤ 124 ∨ 253 ≤ name.length) ∧
        (content.length % 1024 = 0 ∨ (content.length % 1024 + 4) % 256 < 128) := by
    refine and_congr ?_ (fileChunks_readable content)
    show (name.length + 3) % 256 < 128 ↔ _
    omega
  rw [← hread]
  refine ⟨?_, ?_⟩
  · intro h
    by_contra hneg
    exact not_uploaded_of_negative hnul hlen hopen hneg h
  · exact uploaded_of_readable hnul hlen hopen

end Upload

theorem upload_iff_threeBytes : Uploaded openEnv [97] [1, 2, 3] :=
  (upload_iff (by decide) (by decide) (by simp) rfl).mpr ⟨.inl (by decide), .inr (by decide)⟩

/-- A file of 124 bytes: its length field is 128. -/
theorem upload_negative_length :
    openEnv.canWrite [97] = true ∧ ¬ Uploaded openEnv [97] (List.replicate 124 0) := by
  refine ⟨rfl, not_uploaded_of_negative (by simp) (by decide) rfl ?_⟩
  rintro ⟨_, hchunks⟩
  have hlast := (fileChunks_readable (List.replicate 124 0)).mp hchunks
  rw [List.length_replicate] at hlast
  omega

end LinuxCodeDemos.TcpFile

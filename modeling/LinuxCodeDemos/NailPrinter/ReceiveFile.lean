/-
  LinuxCodeDemos.NailPrinter.ReceiveFile

  The upload in `do_receive_file` of `NailPrinterServer/MainServer.c`: the `recv` loop and the
  decoder, with the size that `atoi` made of the command.

  - `recv` stores what it returns into `buffer[1024]`; its limit is `fileSize` as a `size_t`, so a
    negative size is no limit at all.
  - `filebuf` holds `fileSize` bytes that were not stored yet; `malloc` of a negative size gives a
    null pointer, into which nothing can be stored.
  - Calls of `recv` behind the listed ones return 0.

  Everything stays in bounds exactly if the chunks are of at most 1024 bytes and some of the first
  ones add up to the declared size (`receiveFile_ok_iff`).
-/

import LinuxCodeDemos.NailPrinter.SendFile

namespace LinuxCodeDemos.NailPrinter

open Lib

/-- What a call of `recv` returns. -/
inductive Recv where
  | bytes (received : List UInt8)
  | zero
  | failed
  deriving DecidableEq, Repr

/-- `recv` returns at least one byte and no more than it was asked for. -/
def Recv.Possible (fileSize : Int) : Recv → Prop
  | .bytes received => received ≠ [] ∧ (0 ≤ fileSize → received.length ≤ fileSize)
  | .zero => True
  | .failed => True

/-- The locals of the loop and `filebuf`. -/
structure Upload where
  filebuf : List (Option UInt8)
  wlength : Nat
  rcnt : Nat
  deriving DecidableEq, Repr

/-- `malloc(fileSize)`. -/
def Upload.start (fileSize : Int) : Upload :=
  { filebuf := List.replicate fileSize.toNat none, wlength := 0, rcnt := 0 }

/-- One turn of the loop: `recv` into the zeros of `buffer`, and the copy to `filebuf`. -/
def receiveChunk (s : Upload) (received : List UInt8) : Except Fault Upload := do
  let buffer ← store (List.replicate bufferSize 0) 0 received
  let copied ← loadBytes buffer 0 received.length
  let filebuf ← store s.filebuf s.wlength (copied.map some)
  .ok { filebuf, wlength := s.wlength + received.length, rcnt := s.rcnt + received.length }

def receiveLoop (fileSize : Int) : Upload → List Recv → Except Fault Upload
  | s, [] => .ok s
  | s, .zero :: _ => .ok s
  | s, .failed :: _ => .ok s
  | s, .bytes received :: recvs => do
      let s ← receiveChunk s received
      if fileSize ≤ s.rcnt then .ok s else receiveLoop fileSize s recvs

/-- From the `malloc` of `filebuf` to the decoder. -/
def receiveFile (signedChar : Bool) (fileSize : Int) (recvs : List Recv) : Except Fault Decoded := do
  let s ← receiveLoop fileSize (.start fileSize) recvs
  base64DecodeBlock signedChar s.filebuf fileSize .start

-- ============================================================================
-- The decoder
-- ============================================================================

section Decodes

variable {signedChar : Bool} {s : Decoded}

/-- Bytes that were stored can be decoded. -/
theorem base64DecodeBlock_stored (code : List UInt8) (rest : List (Option UInt8)) (s : Decoded) :
    ∃ s', base64DecodeBlock signedChar (code.map some ++ rest) code.length s = .ok s' := by
  induction code generalizing s with
  | nil =>
      cases rest with
      | nil => exact ⟨s, rfl⟩
      | cons byte rest => exact ⟨s, rfl⟩
  | cons byte code ih =>
      rw [List.map_cons, List.cons_append, base64DecodeBlock, List.length_cons, if_neg (by omega),
        show ((code.length + 1 : Nat) : Int) - 1 = code.length by omega]
      exact ih _

/-- The decoder comes to a byte that was not stored, or behind the block. -/
theorem base64DecodeBlock_unstored (code : List UInt8) (n : Nat) {left : Int}
    (h : left < 0 ∨ code.length < left) (s : Decoded) :
    base64DecodeBlock signedChar (code.map some ++ List.replicate n none) left s
      = .error .read := by
  induction code generalizing left s with
  | nil =>
      rw [List.length_nil] at h
      cases n with
      | zero => exact if_neg (by omega)
      | succ n => exact if_neg (by omega)
  | cons byte code ih =>
      rw [List.length_cons] at h
      rw [List.map_cons, List.cons_append, base64DecodeBlock, if_neg (by omega)]
      exact ih (by omega) _

end Decodes

-- ============================================================================
-- The loop
-- ============================================================================

/-- The bytes received so far are stored in a block of `n`. -/
structure Stored (n : Nat) (received : List UInt8) (s : Upload) : Prop where
  filebuf : s.filebuf = received.map some ++ List.replicate (n - received.length) none
  wlength : s.wlength = received.length
  rcnt : s.rcnt = received.length
  le : received.length ≤ n

theorem stored_start (n : Nat) : Stored n [] (.start n) :=
  ⟨by rw [Upload.start, Int.toNat_natCast]; rfl, rfl, rfl, Nat.zero_le _⟩

section Chunks

variable {n : Nat} {received chunk : List UInt8} {s : Upload}

theorem Stored.length_filebuf (h : Stored n received s) : s.filebuf.length = n := by
  have hle := h.le
  rw [h.filebuf, List.length_append, List.length_map, List.length_replicate]
  omega

/-- What `recv` has stored is what the loop copies. -/
theorem receiveChunk_eq (hbuffer : chunk.length ≤ bufferSize) :
    receiveChunk s chunk = (store s.filebuf s.wlength (chunk.map some)).map fun filebuf =>
      { filebuf, wlength := s.wlength + chunk.length, rcnt := s.rcnt + chunk.length } := by
  have hstore : store (List.replicate bufferSize 0) 0 chunk
      = .ok (chunk ++ List.replicate (bufferSize - chunk.length) 0) := by
    rw [store_of_le (by rw [List.length_replicate]; omega), splice, List.take_zero,
      List.nil_append, Nat.zero_add, List.drop_replicate]
  have hload : loadBytes (chunk ++ List.replicate (bufferSize - chunk.length) 0) 0 chunk.length
      = .ok chunk := by
    rw [loadBytes_of_le (by rw [List.length_append]; omega), List.drop_zero, List.take_left]
  simp only [receiveChunk, hstore, hload, Except.bind, bind]
  cases store s.filebuf s.wlength (chunk.map some) with
  | error e => rfl
  | ok filebuf => rfl

theorem Stored.receiveChunk (h : Stored n received s) (hbuffer : chunk.length ≤ bufferSize)
    (hfilebuf : received.length + chunk.length ≤ n) :
    ∃ s', receiveChunk s chunk = .ok s' ∧ Stored n (received ++ chunk) s' := by
  have hstore : store s.filebuf s.wlength (chunk.map some)
      = .ok ((received ++ chunk).map some
          ++ List.replicate (n - (received ++ chunk).length) none) := by
    have hoff : received.length = (received.map (some : UInt8 → Option UInt8)).length :=
      (List.length_map _).symm
    rw [store_of_le (by rw [h.length_filebuf, h.wlength, List.length_map]; exact hfilebuf), splice,
      h.filebuf, h.wlength, List.take_left' hoff.symm, List.drop_append, List.drop_eq_nil_of_le
      (by rw [← hoff]; omega), List.nil_append, List.drop_replicate, List.map_append,
      List.append_assoc, List.length_append, List.length_map, List.length_map,
      show n - received.length - (received.length + chunk.length - received.length)
        = n - (received.length + chunk.length) by omega]
  refine ⟨_, by rw [receiveChunk_eq hbuffer, hstore]; rfl, rfl, ?_, ?_, ?_⟩
  · show s.wlength + chunk.length = _
    rw [h.wlength, List.length_append]
  · show s.rcnt + chunk.length = _
    rw [h.rcnt, List.length_append]
  · rw [List.length_append]
    exact hfilebuf

/-- A chunk that one of the two blocks does not hold. -/
theorem Stored.receiveChunk_error (h : Stored n received s)
    (hlarge : bufferSize < chunk.length ∨ n < received.length + chunk.length) :
    ∃ e, NailPrinter.receiveChunk s chunk = .error e := by
  have hne : chunk ≠ [] := by
    rintro rfl
    have hle := h.le
    rw [List.length_nil] at hlarge
    omega
  by_cases hbuffer : chunk.length ≤ bufferSize
  · have hstore : store s.filebuf s.wlength (chunk.map some) = .error .write := by
      refine if_neg ?_
      rw [h.length_filebuf, h.wlength, List.length_map, List.map_eq_nil_iff]
      rintro (hnil | hle)
      · exact hne hnil
      · omega
    exact ⟨_, by rw [receiveChunk_eq hbuffer, hstore]; rfl⟩
  · have hstore : store (List.replicate bufferSize 0) 0 chunk = .error .write := by
      refine if_neg ?_
      rw [List.length_replicate]
      rintro (hnil | hle)
      · exact hne hnil
      · omega
    exact ⟨_, by rw [NailPrinter.receiveChunk, hstore]; rfl⟩

end Chunks

/-- The first results of `recv` are chunks that `buffer` holds, of `size` bytes together. -/
def Exact (size : Nat) (recvs : List Recv) : Prop :=
  ∃ (chunks : List (List UInt8)) (rest : List Recv), recvs = chunks.map .bytes ++ rest ∧
    (∀ chunk ∈ chunks, chunk.length ≤ bufferSize) ∧ chunks.flatten.length = size

section Exactly

variable {size : Nat} {recvs : List Recv} {chunk : List UInt8}

theorem exact_zero : Exact 0 recvs := ⟨[], recvs, rfl, fun _ h => absurd h List.not_mem_nil, rfl⟩

theorem not_exact_nil (h : 0 < size) : ¬ Exact size [] := by
  rintro ⟨chunks, rest, hrecvs, -, hsize⟩
  obtain ⟨hnil, -⟩ := List.append_eq_nil_iff.mp hrecvs.symm
  rw [List.map_eq_nil_iff.mp hnil] at hsize
  exact absurd hsize (Nat.ne_of_lt h)

/-- An end of the loop that is no chunk. -/
theorem not_exact_cons {r : Recv} (hr : ∀ chunk, r ≠ .bytes chunk) (h : 0 < size) :
    ¬ Exact size (r :: recvs) := by
  rintro ⟨chunks, rest, hrecvs, -, hsize⟩
  cases chunks with
  | nil => exact absurd hsize (Nat.ne_of_lt h)
  | cons chunk chunks => exact hr chunk (List.cons.inj hrecvs).1

theorem exact_cons (h : 0 < size) :
    Exact size (.bytes chunk :: recvs) ↔
      chunk.length ≤ bufferSize ∧ chunk.length ≤ size ∧ Exact (size - chunk.length) recvs := by
  refine ⟨?_, ?_⟩
  · rintro ⟨chunks, rest, hrecvs, hchunks, hsize⟩
    cases chunks with
    | nil => exact absurd hsize (Nat.ne_of_lt h)
    | cons first chunks =>
        obtain ⟨hfirst, htail⟩ := List.cons.inj hrecvs
        obtain rfl := Recv.bytes.inj hfirst
        obtain ⟨hle, hrest⟩ := List.forall_mem_cons.mp hchunks
        rw [List.flatten_cons, List.length_append] at hsize
        exact ⟨hle, by omega, chunks, rest, htail, hrest, by omega⟩
  · rintro ⟨hle, hin, chunks, rest, rfl, hchunks, hsize⟩
    refine ⟨chunk :: chunks, rest, rfl, List.forall_mem_cons.mpr ⟨hle, hchunks⟩, ?_⟩
    rw [List.flatten_cons, List.length_append]
    omega

end Exactly

-- ============================================================================
-- Bounds
-- ============================================================================

section Bounds

variable {signedChar : Bool} {n : Nat} {received : List UInt8} {s : Upload}

/-- If the loop stops early, the decoder reads what was not received. -/
theorem Stored.not_decode (h : Stored n received s) (hlt : received.length < n) :
    ¬ ∃ d, base64DecodeBlock signedChar s.filebuf n .start = .ok d := by
  rintro ⟨d, hd⟩
  rw [h.filebuf, base64DecodeBlock_unstored _ _ (.inr (by omega))] at hd
  cases hd

theorem Stored.decode_ok (h : Stored n received s) (hall : received.length = n) :
    ∃ d, base64DecodeBlock signedChar s.filebuf n .start = .ok d := by
  rw [h.filebuf, ← hall]
  exact base64DecodeBlock_stored _ _ _

/-- What is left of the upload, with some bytes missing. -/
theorem Stored.receive_ok_iff (recvs : List Recv) :
    ∀ {received : List UInt8} {s : Upload}, Stored n received s → received.length < n →
      ((∃ d, (receiveLoop n s recvs >>= fun s =>
          base64DecodeBlock signedChar s.filebuf n .start) = .ok d) ↔
        Exact (n - received.length) recvs) := by
  induction recvs with
  | nil =>
      intro received s h hlt
      exact iff_of_false (h.not_decode hlt) (not_exact_nil (by omega))
  | cons r recvs ih =>
      intro received s h hlt
      cases r with
      | zero => exact iff_of_false (h.not_decode hlt) (not_exact_cons (by simp) (by omega))
      | failed => exact iff_of_false (h.not_decode hlt) (not_exact_cons (by simp) (by omega))
      | bytes chunk =>
          rw [exact_cons (by omega), receiveLoop]
          by_cases hin : chunk.length ≤ bufferSize ∧ received.length + chunk.length ≤ n
          · obtain ⟨s', hchunk, hs'⟩ := h.receiveChunk hin.1 hin.2
            have hlen : (received ++ chunk).length = received.length + chunk.length :=
              List.length_append
            rw [hchunk]
            show (∃ d, ((if (n : Int) ≤ s'.rcnt then .ok s' else receiveLoop n s' recvs) >>= _)
              = .ok d) ↔ _
            by_cases hall : (received ++ chunk).length = n
            · rw [if_pos (by rw [hs'.rcnt, hall])]
              refine iff_of_true (hs'.decode_ok hall) ⟨hin.1, by omega, ?_⟩
              rw [show n - received.length - chunk.length = 0 by omega]
              exact exact_zero
            · rw [if_neg (by rw [hs'.rcnt]; omega), ih hs' (by omega), hlen, Nat.sub_sub]
              exact ⟨fun hexact => ⟨hin.1, by omega, hexact⟩, fun hexact => hexact.2.2⟩
          · obtain ⟨e, he⟩ := @Stored.receiveChunk_error n received chunk s h (by omega)
            refine iff_of_false ?_ (by omega)
            rintro ⟨d, hd⟩
            rw [he] at hd
            cases hd

/-- With a negative size there is nowhere to store and nothing to read. -/
theorem not_receiveFile_of_neg {fileSize : Int} (hneg : fileSize < 0) {recvs : List Recv}
    (hrecvs : ∀ r ∈ recvs, r.Possible fileSize) :
    ¬ ∃ d, receiveFile signedChar fileSize recvs = .ok d := by
  have hstart : Stored 0 [] (.start fileSize) := by
    refine ⟨?_, rfl, rfl, Nat.zero_le _⟩
    rw [Upload.start, Int.toNat_of_nonpos (by omega)]
    rfl
  have hdecode : base64DecodeBlock signedChar (Upload.start fileSize).filebuf fileSize .start
      = .error .read := by
    rw [hstart.filebuf]
    exact base64DecodeBlock_unstored [] _ (.inl hneg) _
  have hended : ¬ ∃ d, (base64DecodeBlock signedChar (Upload.start fileSize).filebuf fileSize .start)
      = .ok d := by
    rw [hdecode]
    rintro ⟨d, hd⟩
    cases hd
  cases recvs with
  | nil => exact hended
  | cons r recvs =>
      cases r with
      | zero => exact hended
      | failed => exact hended
      | bytes chunk =>
          have hne := (hrecvs _ (List.mem_cons_self ..)).1
          have hpos := List.length_pos_iff.mpr hne
          obtain ⟨e, he⟩ := @Stored.receiveChunk_error 0 [] chunk _ hstart
            (by rw [List.length_nil]; omega)
          rintro ⟨d, hd⟩
          rw [receiveFile, receiveLoop, he] at hd
          cases hd

/-- For a declared size that is not negative. -/
theorem receiveFile_nat_ok_iff (n : Nat) {recvs : List Recv}
    (hrecvs : ∀ r ∈ recvs, r.Possible n) :
    (∃ d, receiveFile signedChar n recvs = .ok d) ↔ Exact n recvs := by
  rcases Nat.eq_zero_or_pos n with rfl | hpos
  · -- `recv` is asked for nothing and returns nothing
    refine iff_of_true ?_ exact_zero
    have hended := @Stored.decode_ok signedChar 0 [] _ (stored_start 0) rfl
    cases recvs with
    | nil => exact hended
    | cons r recvs =>
        cases r with
        | zero => exact hended
        | failed => exact hended
        | bytes chunk =>
            obtain ⟨hne, hle⟩ := hrecvs _ (List.mem_cons_self ..)
            have hchunk := List.length_pos_iff.mpr hne
            have hlimit := hle (Int.natCast_nonneg _)
            omega
  · exact (stored_start n).receive_ok_iff recvs hpos

end Bounds

/-- The upload stays in its two blocks, and the decoder in what was received, exactly if the size is
    not negative and the first chunks, of at most 1024 bytes each, add up to it. -/
theorem receiveFile_ok_iff (signedChar : Bool) (fileSize : Int) {recvs : List Recv}
    (hrecvs : ∀ r ∈ recvs, r.Possible fileSize) :
    (∃ d, receiveFile signedChar fileSize recvs = .ok d) ↔
      0 ≤ fileSize ∧ Exact fileSize.toNat recvs := by
  by_cases hneg : fileSize < 0
  · exact iff_of_false (not_receiveFile_of_neg hneg hrecvs) (by omega)
  · obtain ⟨n, rfl⟩ := Int.eq_ofNat_of_zero_le (Int.not_lt.mp hneg)
    rw [receiveFile_nat_ok_iff n hrecvs, Int.toNat_natCast]
    exact (and_iff_right (Int.natCast_nonneg n)).symm

/-- Four bytes in two segments. -/
theorem receiveFile_four :
    ∃ d, receiveFile true 4 [.bytes [84, 87], .bytes [70, 117]] = .ok d := by
  have hrecvs : ∀ r ∈ [Recv.bytes [84, 87], .bytes [70, 117]], r.Possible 4 := by
    intro r hr
    simp only [List.mem_cons, List.not_mem_nil, or_false] at hr
    rcases hr with rfl | rfl
    · exact ⟨List.cons_ne_nil _ _, fun _ => by decide⟩
    · exact ⟨List.cons_ne_nil _ _, fun _ => by decide⟩
  exact (receiveFile_ok_iff true 4 hrecvs).mpr
    ⟨by decide, [[84, 87], [70, 117]], [], rfl, by decide, rfl⟩

/-- A size of 4 and two segments of 3 bytes: the second one leaves `filebuf`. -/
theorem receiveFile_segments :
    (∀ r ∈ [Recv.bytes [84, 87, 70], .bytes [117, 84, 87]], r.Possible 4) ∧
      ¬ ∃ d, receiveFile true 4 [.bytes [84, 87, 70], .bytes [117, 84, 87]] = .ok d := by
  have hpossible : ∀ r ∈ [Recv.bytes [84, 87, 70], .bytes [117, 84, 87]], r.Possible (4 : Nat) := by
    intro r hr
    simp only [List.mem_cons, List.not_mem_nil, or_false] at hr
    rcases hr with rfl | rfl
    · exact ⟨List.cons_ne_nil _ _, fun _ => by decide⟩
    · exact ⟨List.cons_ne_nil _ _, fun _ => by decide⟩
  refine ⟨hpossible, ?_⟩
  intro hok
  rw [show (4 : Int) = (4 : Nat) from rfl, receiveFile_nat_ok_iff 4 hpossible,
    exact_cons (by omega)] at hok
  obtain ⟨-, -, hexact⟩ := hok
  rw [exact_cons (by decide)] at hexact
  exact absurd hexact.2.1 (by decide)

end LinuxCodeDemos.NailPrinter

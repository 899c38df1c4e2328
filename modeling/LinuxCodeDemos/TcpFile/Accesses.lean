/-
  LinuxCodeDemos.TcpFile.Accesses

  The accesses that the server makes to `buffer[2048]`, `filebuf[2048]` and
  `file_name[256]` while it reads what a peer sends.

  - The functions below repeat `child_handler`, `receive_file`, the name message
    of `send_file` and `package_check` with their accesses; they compute what the
    server computes (`childHandlerTraced_result`).
  - `recv` is given an address and a length, so its access is as long as the
    length it is given; a negative one is a huge `size_t`.
  - All accesses lie inside exactly when every length field that the peer sends
    is in range (`accesses_inside_iff`).
-/

import LinuxCodeDemos.Lib.Traced
import LinuxCodeDemos.TcpFile.Transfer

namespace LinuxCodeDemos.TcpFile

open Lib

-- ============================================================================
-- Accesses
-- ============================================================================

/-- The arrays of the server. -/
inductive ServerArray where
  | buffer
  | filebuf
  | fileName
  deriving DecidableEq, Repr

def ServerArray.size : ServerArray → Nat
  | .buffer => bufferSize
  | .filebuf => bufferSize
  | .fileName => 256

/-- `count` cells of an array from index `first` on. -/
structure Access where
  array : ServerArray
  first : Int
  count : Nat
  deriving DecidableEq, Repr

/-- Every cell has an index of the array. -/
def Access.Inside (a : Access) : Prop := a.count = 0 ∨ 0 ≤ a.first ∧ a.first + a.count ≤ a.array.size

instance (a : Access) : Decidable a.Inside := inferInstanceAs (Decidable (_ ∨ _))

/-- `bzero` of an array. -/
def Access.whole (array : ServerArray) : Access := { array, first := 0, count := array.size }

/-- An `int` where a `size_t` is wanted. -/
def sizeT (len : Int) : Nat := (len % 2 ^ 64).toNat

/-- `recv (fd, &buffer[off], len, 0)`. -/
def recvTraced (c : Conn) (buffer : List UInt8) (off : Nat) (len : Int) :
    Traced Access (Conn × List UInt8) := do
  Traced.emit { array := .buffer, first := off, count := sizeT len }
  Traced.lift (recv c buffer off len)

/-- `package_check (buffer, bufLen)`: the scan of `crc16` and the copy of the two
    bytes behind it. -/
def packageCheckTraced (buffer : List UInt8) (bufLen : Int) : Traced Access Bool := do
  let short := bufLen.bmod (2 ^ 16)
  Traced.emit { array := .buffer, first := 0, count := ((short - 2) % 2 ^ 32).toNat }
  Traced.emit { array := .buffer, first := short - 2, count := 2 }
  Traced.lift (packageCheck buffer bufLen)

/-- The name message. -/
def receiveNameTraced (c : Conn) : Traced Access (Conn × Option (List UInt8)) := do
  Traced.emit (.whole .buffer)
  Traced.emit (.whole .fileName)
  let (c, buffer) ← recvTraced c zeroBuffer 0 2
  Traced.emit { array := .buffer, first := 0, count := 2 }
  let length := charWord (buffer.getD 0 0) (buffer.getD 1 0)
  let (c, buffer) ← recvTraced c buffer 2 length
  let ret ← packageCheckTraced buffer (length + 2)
  if ret then do
    Traced.emit { array := .buffer, first := 2, count := 255 }
    Traced.emit { array := .fileName, first := 0, count := 255 }
    Traced.emit (.whole .buffer)
    -- `printf` and `open` read the name up to its NUL
    let name := cString ((buffer.drop 2).take 255)
    Traced.emit { array := .fileName, first := 0, count := name.length + 1 }
    pure (c, some name)
  else pure (c, none)

/-- The receive loop. -/
def receiveDatasTraced : Nat → Conn → List UInt8 → Traced Access (List UInt8 × SessionEnd)
  | 0, _, written => pure (written, .running)
  | fuel + 1, c, written => do
      Traced.emit (.whole .buffer)
      Traced.emit (.whole .filebuf)
      let (c, buffer) ← recvTraced c zeroBuffer 0 4
      Traced.emit { array := .buffer, first := 0, count := 3 }
      let length := charWord (buffer.getD 0 0) (buffer.getD 1 0)
      if buffer.getD 2 0 = cmdComplete then pure (written, .complete)
      else do
        let (c, buffer) ← recvTraced c buffer 4 (length - 2)
        let ret ← packageCheckTraced buffer (length + 2)
        if ret then do
          Traced.emit { array := .buffer, first := 4, count := (length - 4).toNat }
          Traced.emit { array := .filebuf, first := 0, count := (length - 4).toNat }
          let datas ← Traced.lift (loadBytes buffer 4 (length - 4).toNat)
          let filebuf ← Traced.lift (store zeroBuffer 0 datas)
          -- `write` refuses a negative length
          Traced.emit { array := .filebuf, first := 0, count := (length - 4).toNat }
          let out ← Traced.lift (fileWrite filebuf (length - 4))
          receiveDatasTraced fuel c (written ++ out)
        else pure (written, .crcError)

/-- `receive_file`. -/
def receiveFileTraced (env : ServerEnv) (c : Conn) : Traced Access Session := do
  let (c, fileName) ← receiveNameTraced c
  match fileName with
  | none => pure { opened := none, written := [], sent := [], ending := .crcError }
  | some name =>
      if env.canWrite name then do
        let (written, ending) ← receiveDatasTraced (c.incoming.length + 1) c []
        pure { opened := some name, written, sent := [], ending }
      else pure { opened := some name, written := [], sent := [], ending := .notOpened }

/-- `send_file`, with the accesses of its name message. -/
def serverSendFileTraced (env : ServerEnv) (c : Conn) : Traced Access Session := do
  let (_, fileName) ← receiveNameTraced c
  match fileName with
  | none => pure { opened := none, written := [], sent := [], ending := .crcError }
  | some name => Traced.lift do
      let datas ← match env.content name with
        | none => .ok []
        | some bytes => sendDatas bytes
      let complete ← sealMessage (commandBody cmdComplete)
      .ok { opened := some name, written := [], sent := datas ++ complete, ending := .sent }

/-- `child_handler`. -/
def childHandlerTraced (env : ServerEnv) (c : Conn) : Traced Access Session := do
  Traced.emit (.whole .buffer)
  let (c, buffer) ← recvTraced c zeroBuffer 0 6
  let ret ← packageCheckTraced buffer 6
  if ret then do
    Traced.emit { array := .buffer, first := 2, count := 2 }
    let cmd := charWord (buffer.getD 2 0) (buffer.getD 3 0)
    if cmd = cmdReceive.toNat then receiveFileTraced env c
    else if cmd = cmdSend.toNat then serverSendFileTraced env c
    else pure { opened := none, written := [], sent := [], ending := .badCommand cmd }
  else pure { opened := none, written := [], sent := [], ending := .crcError }

-- ============================================================================
-- The length fields of a peer
-- ============================================================================

/-- A length field that the server reads. -/
inductive LengthField where
  | name (length : Int)
  | data (length : Int)
  deriving DecidableEq, Repr

/-- The rest of the message fits behind what has been read of it. -/
def LengthField.InRange : LengthField → Prop
  | .name length => 0 ≤ length ∧ length ≤ 2046
  | .data length => 2 ≤ length ∧ length ≤ 2046

/-- The length field of a name message. -/
def nameLengths (c : Conn) : List LengthField :=
  match recv c zeroBuffer 0 2 with
  | .error _ => []
  | .ok (_, head) => [.name (charWord (head.getD 0 0) (head.getD 1 0))]

/-- The length fields of the data messages up to the closing command or the first
    message that fails its check. -/
def dataLengths : Nat → Conn → List LengthField
  | 0, _ => []
  | fuel + 1, c =>
      match recv c zeroBuffer 0 4 with
      | .error _ => []
      | .ok (c, head) =>
          if head.getD 2 0 = cmdComplete then []
          else
            let length := charWord (head.getD 0 0) (head.getD 1 0)
            .data length ::
              match recv c head 4 (length - 2) with
              | .error _ => []
              | .ok (c, message) =>
                  if packageCheck message (length + 2) = .ok true then dataLengths fuel c else []

/-- All length fields of a connection. -/
def lengthFields (env : ServerEnv) (c : Conn) : List LengthField :=
  match recv c zeroBuffer 0 6 with
  | .error _ => []
  | .ok (c, command) =>
      if packageCheck command 6 = .ok true then
        let cmd := charWord (command.getD 2 0) (command.getD 3 0)
        if cmd = cmdReceive.toNat then
          nameLengths c ++
            match receiveName c with
            | .ok (c, some name) =>
                if env.canWrite name then dataLengths (c.incoming.length + 1) c else []
            | _ => []
        else if cmd = cmdSend.toNat then nameLengths c
        else []
      else []

-- ============================================================================
-- The traced functions compute what the server computes
-- ============================================================================

@[simp] theorem recvTraced_result (c : Conn) (buffer : List UInt8) (off : Nat) (len : Int) :
    (recvTraced c buffer off len).result = recv c buffer off len := rfl

@[simp] theorem packageCheckTraced_result (buffer : List UInt8) (bufLen : Int) :
    (packageCheckTraced buffer bufLen).result = packageCheck buffer bufLen := rfl

theorem receiveNameTraced_result (c : Conn) : (receiveNameTraced c).result = receiveName c := by
  simp only [receiveNameTraced, receiveName, Traced.result_bind, Traced.result_emit, Traced.ok_bind,
    recvTraced_result, packageCheckTraced_result]
  refine bind_congr fun head => ?_
  refine bind_congr fun message => ?_
  refine bind_congr fun ret => ?_
  cases ret <;> rfl

theorem receiveDatasTraced_result (fuel : Nat) (c : Conn) (written : List UInt8) :
    (receiveDatasTraced fuel c written).result = receiveDatas fuel c written := by
  induction fuel generalizing c written with
  | zero => rfl
  | succ fuel ih =>
      simp only [receiveDatasTraced, receiveDatas, Traced.result_bind, Traced.result_emit,
        Traced.ok_bind, recvTraced_result]
      refine bind_congr fun head => ?_
      split
      · rfl
      · simp only [Traced.result_bind, recvTraced_result, packageCheckTraced_result]
        refine bind_congr fun message => ?_
        refine bind_congr fun ret => ?_
        cases ret with
        | false => rfl
        | true =>
            simp only [if_true, Traced.result_bind, Traced.result_emit, Traced.ok_bind,
              Traced.result_lift, ih]

theorem receiveFileTraced_result (env : ServerEnv) (c : Conn) :
    (receiveFileTraced env c).result = receiveFile env c := by
  simp only [receiveFileTraced, receiveFile, Traced.result_bind, receiveNameTraced_result]
  refine bind_congr fun x => ?_
  obtain ⟨c, _ | name⟩ := x
  · rfl
  · simp only
    split
    · simp only [Traced.result_bind, receiveDatasTraced_result]
      rfl
    · rfl

theorem serverSendFileTraced_result (env : ServerEnv) (c : Conn) :
    (serverSendFileTraced env c).result = serverSendFile env c := by
  simp only [serverSendFileTraced, serverSendFile, Traced.result_bind, receiveNameTraced_result]
  refine bind_congr fun x => ?_
  obtain ⟨c, _ | name⟩ := x
  · rfl
  · rfl

theorem childHandlerTraced_result (env : ServerEnv) (c : Conn) :
    (childHandlerTraced env c).result = childHandler env c := by
  simp only [childHandlerTraced, childHandler, Traced.result_bind, Traced.result_emit, Traced.ok_bind,
    recvTraced_result, packageCheckTraced_result]
  refine bind_congr fun command => ?_
  refine bind_congr fun ret => ?_
  cases ret with
  | false => rfl
  | true =>
      simp only [if_true, Traced.result_bind, Traced.result_emit, Traced.ok_bind]
      split
      · exact receiveFileTraced_result env _
      · split
        · exact serverSendFileTraced_result env _
        · rfl

-- ============================================================================
-- When the accesses lie inside
-- ============================================================================

theorem inside_whole (array : ServerArray) : (Access.whole array).Inside := by
  refine .inr ⟨Int.le_refl 0, ?_⟩
  show (0 : Int) + array.size ≤ array.size
  omega

/-- A `recv` target lies inside when the length is not negative and fits. -/
theorem inside_recv_iff {off : Nat} {len : Int} (hoff : off ≤ bufferSize) (hlow : -2 ^ 32 ≤ len)
    (hhigh : len < 2 ^ 32) :
    Access.Inside { array := .buffer, first := off, count := sizeT len } ↔
      0 ≤ len ∧ off + len ≤ bufferSize := by
  have hsize : bufferSize = 2048 := rfl
  show sizeT len = 0 ∨ (0 : Int) ≤ off ∧ (off : Int) + sizeT len ≤ bufferSize ↔ _
  rw [sizeT]
  omega

theorem all_recvTraced_bind {β : Type} (c : Conn) (buffer : List UInt8) (off : Nat) (len : Int)
    (f : Conn × List UInt8 → Traced Access β) :
    Traced.All Access.Inside (recvTraced c buffer off len >>= f) ↔
      Access.Inside { array := .buffer, first := off, count := sizeT len } ∧
        ∀ x, recv c buffer off len = .ok x → Traced.All Access.Inside (f x) := by
  rw [Traced.all_bind, recvTraced_result]
  refine and_congr_left fun _ => ?_
  rw [recvTraced, Traced.all_emit_bind, Traced.all_lift, and_true]

/-- The check of a message that fits. -/
theorem all_packageCheckTraced {length : Int} (hpos : 0 ≤ length) (hfit : length ≤ 2046)
    (buffer : List UInt8) : Traced.All Access.Inside (packageCheckTraced buffer (length + 2)) := by
  have hshort : (length + 2).bmod (2 ^ 16) = length + 2 :=
    Int.bmod_eq_of_le (by omega) (by omega)
  rw [packageCheckTraced, Traced.all_emit_bind, Traced.all_emit_bind, hshort, Int.add_sub_cancel]
  refine ⟨.inr ⟨Int.le_refl 0, ?_⟩, .inr ⟨hpos, ?_⟩, (Traced.all_lift _).mpr trivial⟩
  · show (0 : Int) + ((length % 2 ^ 32).toNat : Nat) ≤ 2048
    omega
  · show length + (2 : Nat) ≤ 2048
    omega

theorem cString_length_le (bs : List UInt8) : (cString bs).length ≤ bs.length :=
  (List.takeWhile_prefix _).length_le

/-- The name message stays inside exactly when its length field is in range. -/
theorem receiveNameTraced_inside (c : Conn) :
    Traced.All Access.Inside (receiveNameTraced c) ↔ ∀ l ∈ nameLengths c, l.InRange := by
  rw [receiveNameTraced, Traced.all_emit_bind, Traced.all_emit_bind, all_recvTraced_bind,
    and_iff_right (inside_whole _), and_iff_right (inside_whole _), and_iff_right (by decide),
    nameLengths]
  cases hhead : recv c zeroBuffer 0 2 with
  | error f => exact iff_of_true (fun _ h => nomatch h) (fun _ h => nomatch h)
  | ok x =>
      obtain ⟨c₁, head⟩ := x
      obtain ⟨hlow, hhigh⟩ := charWord_bounds (head.getD 0 0) (head.getD 1 0)
      have hsize : bufferSize = 2048 := rfl
      refine ⟨?_, ?_⟩
      · intro h
        have hrest := h (c₁, head) rfl
        simp only [Traced.all_emit_bind, all_recvTraced_bind] at hrest
        have htarget := (inside_recv_iff (by omega) (by omega) (by omega)).mp hrest.2.1
        intro l hl
        rw [List.mem_singleton.mp hl]
        exact ⟨htarget.1, by omega⟩
      · intro h x hx
        cases hx
        obtain ⟨hpos, hfit⟩ : 0 ≤ charWord (head.getD 0 0) (head.getD 1 0) ∧
          charWord (head.getD 0 0) (head.getD 1 0) ≤ 2046 := h _ (List.mem_singleton_self _)
        simp only [Traced.all_emit_bind, all_recvTraced_bind]
        refine ⟨by decide, (inside_recv_iff (by omega) (by omega) (by omega)).mpr
          ⟨hpos, by omega⟩, fun x _ => ?_⟩
        rw [Traced.all_bind]
        refine ⟨all_packageCheckTraced hpos hfit _, fun ret _ => ?_⟩
        cases ret with
        | false => exact (Traced.all_pure _).mpr trivial
        | true =>
            have hname := cString_length_le ((x.2.drop 2).take 255)
            rw [List.length_take] at hname
            simp only [if_true, Traced.all_emit_bind, Traced.all_pure, and_true]
            refine ⟨by decide, by decide, inside_whole _, .inr ⟨Int.le_refl 0, ?_⟩⟩
            show (0 : Int) + ((cString ((x.2.drop 2).take 255)).length + 1 : Nat) ≤ 256
            omega

/-- The copy loop and the `write` of a message that fits. -/
theorem all_copy {β : Type} {message : List UInt8} (hmessage : message.length = bufferSize)
    {length : Int} (hfit : length ≤ 2046) (f : List UInt8 → Traced Access β) :
    ∃ out, Traced.All Access.Inside (do
        Traced.emit { array := .buffer, first := 4, count := (length - 4).toNat }
        Traced.emit { array := .filebuf, first := 0, count := (length - 4).toNat }
        let datas ← Traced.lift (loadBytes message 4 (length - 4).toNat)
        let filebuf ← Traced.lift (store zeroBuffer 0 datas)
        Traced.emit { array := .filebuf, first := 0, count := (length - 4).toNat }
        let out ← Traced.lift (fileWrite filebuf (length - 4))
        f out) ↔ Traced.All Access.Inside (f out) := by
  have hsize : bufferSize = 2048 := rfl
  have hload : loadBytes message 4 (length - 4).toNat
      = .ok ((message.drop 4).take (length - 4).toNat) := loadBytes_of_le (by omega)
  have hdatas : ((message.drop 4).take (length - 4).toNat).length = (length - 4).toNat := by
    rw [List.length_take, List.length_drop]
    omega
  have hstore := store_of_le (show 0 + ((message.drop 4).take (length - 4).toNat).length
    ≤ zeroBuffer.length by rw [hdatas, zeroBuffer_length]; omega)
  obtain ⟨out, hout⟩ : ∃ out, fileWrite
      (splice zeroBuffer 0 ((message.drop 4).take (length - 4).toNat)) (length - 4) = .ok out := by
    rw [fileWrite]
    split
    · exact ⟨[], rfl⟩
    · refine ⟨_, loadBytes_of_le ?_⟩
      rw [splice_length (by rw [hdatas, zeroBuffer_length]; omega), zeroBuffer_length]
      omega
  have hbuffer : Access.Inside { array := .buffer, first := 4, count := (length - 4).toNat } := by
    refine .inr ⟨show (0 : Int) ≤ 4 by omega, ?_⟩
    show (4 : Int) + ((length - 4).toNat : Nat) ≤ 2048
    omega
  have hfilebuf : Access.Inside { array := .filebuf, first := 0, count := (length - 4).toNat } := by
    refine .inr ⟨Int.le_refl 0, ?_⟩
    show (0 : Int) + ((length - 4).toNat : Nat) ≤ 2048
    omega
  refine ⟨out, ?_⟩
  rw [Traced.all_emit_bind, Traced.all_emit_bind, Traced.all_lift_bind hload,
    Traced.all_lift_bind hstore, Traced.all_emit_bind, Traced.all_lift_bind hout,
    and_iff_right hbuffer, and_iff_right hfilebuf, and_iff_right hfilebuf]

/-- The receive loop stays inside exactly when its length fields are in range. -/
theorem receiveDatasTraced_inside (fuel : Nat) (c : Conn) (written : List UInt8) :
    Traced.All Access.Inside (receiveDatasTraced fuel c written) ↔
      ∀ l ∈ dataLengths fuel c, l.InRange := by
  induction fuel generalizing c written with
  | zero => exact iff_of_true (fun _ h => nomatch h) (fun _ h => nomatch h)
  | succ fuel ih =>
      rw [receiveDatasTraced, Traced.all_emit_bind, Traced.all_emit_bind, all_recvTraced_bind,
        and_iff_right (inside_whole _), and_iff_right (inside_whole _), and_iff_right (by decide),
        dataLengths]
      cases hhead : recv c zeroBuffer 0 4 with
      | error f => exact iff_of_true (fun _ h => nomatch h) (fun _ h => nomatch h)
      | ok x =>
          obtain ⟨c₁, head⟩ := x
          obtain ⟨hlow, hhigh⟩ := charWord_bounds (head.getD 0 0) (head.getD 1 0)
          have hsize : bufferSize = 2048 := rfl
          have hheadlen : head.length = bufferSize := by
            rw [recv_length hhead, zeroBuffer_length]
          rw [Traced.forall_ok_iff]
          simp only [Traced.all_emit_bind]
          rw [and_iff_right (by decide)]
          split
          · exact iff_of_true ((Traced.all_pure _).mpr trivial) (fun _ h => nomatch h)
          · rw [all_recvTraced_bind, List.forall_mem_cons, inside_recv_iff (by omega) (by omega)
              (by omega)]
            generalize charWord (head.getD 0 0) (head.getD 1 0) = length at *
            -- a length in range, and what follows it
            have hrange : 0 ≤ length - 2 ∧ ((4 : Nat) : Int) + (length - 2) ≤ bufferSize ↔
                (LengthField.data length).InRange := by
              show _ ↔ 2 ≤ length ∧ length ≤ 2046
              omega
            rw [hrange]
            refine and_congr_right fun hin => ?_
            obtain ⟨hpos, hfit⟩ : 2 ≤ length ∧ length ≤ 2046 := hin
            cases hmessage : recv c₁ head 4 (length - 2) with
            | error f => exact iff_of_true (fun _ h => nomatch h) (fun _ h => nomatch h)
            | ok x =>
                obtain ⟨c₂, message⟩ := x
                have hlen : message.length = bufferSize := by rw [recv_length hmessage, hheadlen]
                simp only
                rw [Traced.forall_ok_iff, Traced.all_bind, packageCheckTraced_result,
                  and_iff_right (all_packageCheckTraced (by omega) hfit _)]
                cases hcheck : packageCheck message (length + 2) with
                | error f =>
                    rw [if_neg (by simp)]
                    exact iff_of_true (fun _ h => nomatch h) (fun _ h => nomatch h)
                | ok ret =>
                    cases ret with
                    | false =>
                        rw [Traced.forall_ok_iff, if_neg (by simp)]
                        exact iff_of_true ((Traced.all_pure _).mpr trivial) (fun _ h => nomatch h)
                    | true =>
                        obtain ⟨out, hout⟩ := all_copy hlen hfit
                          fun out => receiveDatasTraced fuel c₂ (written ++ out)
                        rw [Traced.forall_ok_iff, if_pos rfl, if_pos rfl,
                          ← ih c₂ (written ++ out)]
                        exact hout

/-- `receive_file` after its name message. -/
theorem receiveFileTraced_inside (env : ServerEnv) (c : Conn) :
    Traced.All Access.Inside (receiveFileTraced env c) ↔
      (∀ l ∈ nameLengths c, l.InRange) ∧
        ∀ l ∈ (match receiveName c with
          | .ok (c, some name) =>
              if env.canWrite name then dataLengths (c.incoming.length + 1) c else []
          | _ => []), l.InRange := by
  rw [receiveFileTraced, Traced.all_bind, receiveNameTraced_inside, receiveNameTraced_result]
  refine and_congr_right fun _ => ?_
  cases receiveName c with
  | error f => exact iff_of_true (fun _ h => nomatch h) (fun _ h => nomatch h)
  | ok x =>
      rw [Traced.forall_ok_iff]
      obtain ⟨c, _ | name⟩ := x
      · exact iff_of_true ((Traced.all_pure _).mpr trivial) (fun _ h => nomatch h)
      · simp only
        split
        · rw [Traced.all_bind, receiveDatasTraced_inside]
          exact and_iff_left fun _ _ => (Traced.all_pure _).mpr trivial
        · exact iff_of_true ((Traced.all_pure _).mpr trivial) (fun _ h => nomatch h)

theorem serverSendFileTraced_inside (env : ServerEnv) (c : Conn) :
    Traced.All Access.Inside (serverSendFileTraced env c) ↔ ∀ l ∈ nameLengths c, l.InRange := by
  rw [serverSendFileTraced, Traced.all_bind, receiveNameTraced_inside]
  refine and_iff_left fun x _ => ?_
  obtain ⟨c, _ | name⟩ := x
  · exact (Traced.all_pure _).mpr trivial
  · exact (Traced.all_lift _).mpr trivial

/-- Whatever a peer sends and however it arrives: all accesses lie inside the arrays
    exactly when every length field of a name is in 0..2046 and every length field of
    a data message in 2..2046. -/
theorem accesses_inside_iff (env : ServerEnv) (c : Conn) :
    Traced.All Access.Inside (childHandlerTraced env c) ↔ ∀ l ∈ lengthFields env c, l.InRange := by
  rw [childHandlerTraced, Traced.all_emit_bind, and_iff_right (inside_whole _),
    all_recvTraced_bind, and_iff_right (by decide), lengthFields]
  cases recv c zeroBuffer 0 6 with
  | error f => exact iff_of_true (fun _ h => nomatch h) (fun _ h => nomatch h)
  | ok x =>
      obtain ⟨c, command⟩ := x
      have hcheck := all_packageCheckTraced (show (0 : Int) ≤ 4 by omega) (by omega) command
      simp only
      rw [Traced.forall_ok_iff, Traced.all_bind, packageCheckTraced_result,
        and_iff_right (show Traced.All Access.Inside (packageCheckTraced command 6) from hcheck)]
      cases packageCheck command 6 with
      | error f =>
          rw [if_neg (show ¬ (Except.error f : Except Fault Bool) = .ok true from
            fun h => nomatch h)]
          exact iff_of_true (fun _ h => nomatch h) (fun _ h => nomatch h)
      | ok ret =>
          rw [Traced.forall_ok_iff]
          cases ret with
          | false =>
              rw [if_neg (show ¬ (Except.ok false : Except Fault Bool) = .ok true from
                fun h => nomatch h)]
              exact iff_of_true ((Traced.all_pure _).mpr trivial) (fun _ h => nomatch h)
          | true =>
              rw [if_pos rfl, if_pos rfl, Traced.all_emit_bind, and_iff_right (by decide)]
              split
              · rw [receiveFileTraced_inside, List.forall_mem_append]
              · split
                · exact serverSendFileTraced_inside env c
                · exact iff_of_true ((Traced.all_pure _).mpr trivial) (fun _ h => nomatch h)

/-- An opening command and a name of 4096 bytes. -/
theorem accesses_outside :
    ¬ Traced.All Access.Inside (childHandlerTraced openEnv
        { incoming := sealedMessage (commandBody cmdReceive) ++ [0, 16], counts := [] }) := by
  intro h
  have hrecv := h { array := .buffer, first := 2, count := 4096 } (by decide +kernel)
  revert hrecv
  decide

-- ============================================================================
-- The receive loop ends
-- ============================================================================

/-- A `recv` takes bytes off the stream or leaves everything as it was. -/
theorem recv_progress {c c' : Conn} {buffer buffer' : List UInt8} {off : Nat} {len : Int}
    (h : recv c buffer off len = .ok (c', buffer')) :
    c'.incoming.length < c.incoming.length ∨ c'.incoming.length = c.incoming.length ∧
      buffer' = buffer := by
  simp only [recv, bind, Except.bind] at h
  split at h
  · cases h
  · next hstore =>
      cases h
      by_cases hnone : (c.incoming.take (recvCount c len)) = []
      · rw [hnone, store, if_pos (.inl rfl), splice_nil] at hstore
        cases hstore
        rcases List.take_eq_nil_iff.mp hnone with hzero | hnil
        · exact .inr ⟨by rw [hzero, List.drop_zero], rfl⟩
        · exact .inr ⟨by rw [hnil, List.drop_nil], rfl⟩
      · refine .inl ?_
        have hpos : 0 < recvCount c len ∧ 0 < c.incoming.length := by
          rw [List.take_eq_nil_iff, not_or] at hnone
          exact ⟨Nat.pos_of_ne_zero hnone.1, List.length_pos_of_ne_nil hnone.2⟩
        rw [List.length_drop]
        omega

theorem zeroBuffer_getD (i : Nat) : zeroBuffer.getD i 0 = 0 := by
  rw [zeroBuffer, List.getD_eq_getElem?_getD, List.getElem?_replicate]
  split <;> rfl

/-- Nothing arrives: the check of the empty message fails. -/
theorem packageCheck_zeroBuffer : packageCheck zeroBuffer 2 = .ok false := by
  have hcheck := packageCheck_block (show ([0, 0] : List UInt8).length = 2 from rfl)
    (Nat.le_refl 2) (by omega) (List.replicate (bufferSize - 2) 0)
  exact hcheck

/-- A turn for every byte and one more is enough for every connection. -/
theorem receiveDatas_ends {fuel : Nat} {c : Conn} (h : c.incoming.length < fuel)
    (written written' : List UInt8) :
    receiveDatas fuel c written ≠ .ok (written', .running) := by
  induction fuel generalizing c written with
  | zero => omega
  | succ fuel ih =>
      intro hrun
      simp only [receiveDatas, bind, Except.bind] at hrun
      split at hrun
      · cases hrun
      next head hhead =>
      split at hrun
      · cases hrun
      split at hrun
      · cases hrun
      next message hmessage =>
      split at hrun
      · cases hrun
      next ret hcheck =>
      split at hrun
      · next hret =>
          split at hrun
          · cases hrun
          split at hrun
          · cases hrun
          split at hrun
          · cases hrun
          refine ih ?_ _ hrun
          -- both calls brought nothing only if the check was made on an empty buffer
          obtain ⟨c₁, b₁⟩ := head
          obtain ⟨c₂, b₂⟩ := message
          simp only at hmessage hcheck ⊢
          have hsecond := recv_progress hmessage
          rcases recv_progress hhead with hless | ⟨hsame, rfl⟩
          · omega
          · rcases hsecond with hless' | ⟨_, rfl⟩
            · omega
            · have hlength : charWord (zeroBuffer.getD 0 0) (zeroBuffer.getD 1 0) = 0 := by
                rw [zeroBuffer_getD, zeroBuffer_getD]
                decide
              rw [hlength, Int.zero_add, packageCheck_zeroBuffer] at hcheck
              cases hcheck
              cases hret
      · cases hrun

end LinuxCodeDemos.TcpFile

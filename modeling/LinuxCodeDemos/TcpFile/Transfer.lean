/-
  LinuxCodeDemos.TcpFile.Transfer

  Well-formed transfers and what the server makes of their bytes.

  - A `Transfer` is a name and a list of chunks that fit the buffers of the
    server.
  - It is `Readable` if its length fields survive the sign extension at the
    server: the low byte of every length is below 128.
  - The server takes a readable transfer apart message by message, provided that
    every `recv` before the closing command returns all it asked for
    (`FullCounts`).  On any other transfer it leaves its buffer.
-/

import LinuxCodeDemos.TcpFile.Server

namespace LinuxCodeDemos.TcpFile

open Lib

-- ============================================================================
-- Length fields
-- ============================================================================

theorem charInt_of_lt {b : UInt8} (h : b.toNat < 128) : (charInt b).toNat = b.toNat := by
  have hmsb : b.toBitVec.msb = false := by
    rw [BitVec.msb_eq_decide]
    simpa using h
  rw [charInt, BitVec.signExtend_eq_setWidth_of_msb_false hmsb, BitVec.toNat_setWidth]
  show b.toNat % 2 ^ 32 = b.toNat
  omega

/-- Two non-negative `char`. -/
theorem charWord_of_lt {lo hi : UInt8} (hlo : lo.toNat < 128) (hhi : hi.toNat < 128) :
    charWord lo hi = (hi.toNat * 256 + lo.toNat : Nat) := by
  have hshift : hi.toNat <<< 8 % 2 ^ 32 = hi.toNat <<< 8 := by
    rw [Nat.shiftLeft_eq]
    omega
  have hnat : (charInt hi <<< 8 ||| charInt lo).toNat = hi.toNat * 256 + lo.toNat := by
    rw [BitVec.toNat_or, BitVec.toNat_shiftLeft, charInt_of_lt hlo, charInt_of_lt hhi, hshift,
      shiftLeft_or_eq]
  rw [charWord, BitVec.toInt_eq_toNat_of_lt (by rw [hnat]; omega), hnat]

/-- A negative low `char` swallows the high one. -/
theorem charWord_of_ge {lo hi : UInt8} (hlo : 128 ≤ lo.toNat) :
    charWord lo hi = (lo.toNat : Int) - 256 := by
  have hmsb : lo.toBitVec.msb = true := by
    rw [BitVec.msb_eq_decide]
    simpa using hlo
  have hor : charInt hi <<< 8 ||| charInt lo = charInt lo := by
    apply BitVec.eq_of_getLsbD_eq
    intro i hi'
    rw [BitVec.getLsbD_or, BitVec.getLsbD_shiftLeft]
    by_cases h8 : i < 8
    · simp [h8]
    · have hone : (charInt lo).getLsbD i = true := by
        rw [charInt, BitVec.getLsbD_signExtend, if_neg h8, hmsb]
        simp [hi']
      simp [hone]
  rw [charWord, hor, charInt, BitVec.toInt_signExtend_of_le (by omega),
    BitVec.toInt_eq_msb_cond, hmsb]
  simp

/-- A negative high `char`. -/
theorem charWord_of_hi_ge {lo hi : UInt8} (hlo : lo.toNat < 128) (hhi : 128 ≤ hi.toNat) :
    charWord lo hi = (hi.toNat : Int) * 256 + lo.toNat - 2 ^ 16 := by
  have hlt := hi.toNat_lt
  have hmsb : hi.toBitVec.msb = true := by
    rw [BitVec.msb_eq_decide]
    simpa using hhi
  have hnat : (charInt hi).toNat = hi.toNat + (2 ^ 32 - 2 ^ 8) := by
    rw [charInt, BitVec.toNat_signExtend, hmsb, BitVec.toNat_setWidth]
    show hi.toNat % 2 ^ 32 + (2 ^ 32 - 2 ^ 8) = _
    omega
  have hshift : (charInt hi <<< 8).toNat = (hi.toNat + (2 ^ 24 - 2 ^ 8)) <<< 8 := by
    rw [BitVec.toNat_shiftLeft, hnat, Nat.shiftLeft_eq, Nat.shiftLeft_eq]
    omega
  have hor : (charInt hi <<< 8 ||| charInt lo).toNat
      = (hi.toNat + (2 ^ 24 - 2 ^ 8)) * 2 ^ 8 + lo.toNat := by
    rw [BitVec.toNat_or, hshift, charInt_of_lt hlo, ← Nat.shiftLeft_add_eq_or_of_lt (by omega),
      Nat.shiftLeft_eq]
  rw [charWord, BitVec.toInt_eq_toNat_cond, hor, if_neg (by omega)]
  omega

/-- Every length field is a `short`. -/
theorem charWord_bounds (lo hi : UInt8) :
    -2 ^ 15 ≤ charWord lo hi ∧ charWord lo hi < 2 ^ 15 - 2 := by
  have hlt := lo.toNat_lt
  have hlt' := hi.toNat_lt
  by_cases hlo : lo.toNat < 128
  · by_cases hhi : hi.toNat < 128
    · rw [charWord_of_lt hlo hhi]
      omega
    · rw [charWord_of_hi_ge hlo (by omega)]
      omega
  · rw [charWord_of_ge (by omega)]
    omega

/-- The length field of a message: read back as it was, or negative. -/
def lengthField (n : Nat) : Int := charWord ((leBytes n).getD 0 0) ((leBytes n).getD 1 0)

theorem lengthField_eq {n : Nat} (h : n % 256 < 128) (hn : n < 2 ^ 15) : lengthField n = n := by
  have hlo : (UInt8.ofNat n).toNat = n % 256 := UInt8.toNat_ofNat'
  have hhi : (UInt8.ofNat (n >>> 8)).toNat = n / 256 := by
    rw [UInt8.toNat_ofNat', Nat.shiftRight_eq_div_pow]
    omega
  show charWord (UInt8.ofNat n) (UInt8.ofNat (n >>> 8)) = n
  rw [charWord_of_lt (by omega) (by omega), hlo, hhi]
  omega

theorem lengthField_neg {n : Nat} (h : 128 ≤ n % 256) :
    lengthField n < 0 ∧ -2 ^ 15 ≤ lengthField n := by
  have hlo : (UInt8.ofNat n).toNat = n % 256 := UInt8.toNat_ofNat'
  have heq : lengthField n = (n % 256 : Nat) - 256 := by
    show charWord (UInt8.ofNat n) (UInt8.ofNat (n >>> 8)) = _
    rw [charWord_of_ge (by omega), hlo]
  rw [heq]
  omega

-- ============================================================================
-- Receiving
-- ============================================================================

/-- The next `recv` returns at least `n` bytes, if they are there. -/
def Ample (n : Nat) (counts : List Nat) : Prop := ∀ count, counts.head? = some count → n ≤ count

/-- A `recv` that fits its buffer. -/
theorem recv_of_count {c : Conn} {len : Int} {n : Nat} (hn : recvCount c len = n)
    (buffer : List UInt8) {off : Nat} (hfit : off + n ≤ buffer.length) :
    recv c buffer off len
      = .ok ({ incoming := c.incoming.drop n, counts := c.counts.tail },
          splice buffer off (c.incoming.take n)) := by
  have hlen := List.length_take_le n c.incoming
  simp only [recv, hn, store_of_le (show off + (c.incoming.take n).length
    ≤ buffer.length by omega), bind, Except.bind]

/-- A `recv` that gets all it asked for. -/
theorem recv_full (bs rest : List UInt8) {counts : List Nat} (h : Ample bs.length counts)
    {len : Int} (hlen : len = bs.length) (buffer : List UInt8) {off : Nat}
    (hfit : off + bs.length ≤ buffer.length) :
    recv { incoming := bs ++ rest, counts } buffer off len
      = .ok ({ incoming := rest, counts := counts.tail }, splice buffer off bs) := by
  have hmin : min bs.length (bs ++ rest).length = bs.length := by
    rw [List.length_append]
    omega
  have hcount : recvCount { incoming := bs ++ rest, counts } len = bs.length := by
    rw [hlen]
    cases counts with
    | nil => simp only [recvCount, if_neg (show ¬ (bs.length : Int) < 0 by omega),
        Int.toNat_natCast, hmin]
    | cons count counts =>
        have := h count rfl
        simp only [recvCount, if_neg (show ¬ (bs.length : Int) < 0 by omega),
          Int.toNat_natCast, hmin]
        omega
  have hrecv := recv_of_count hcount buffer hfit
  rwa [List.drop_left, List.take_left] at hrecv

theorem zeroBuffer_length : zeroBuffer.length = bufferSize := List.length_replicate

/-- The buffer after the first bytes of a message. -/
theorem splice_zeroBuffer (a : List UInt8) :
    splice zeroBuffer 0 a = a ++ List.replicate (bufferSize - a.length) 0 := by
  simp [splice, zeroBuffer]

/-- The buffer after a message has come in two parts. -/
theorem splice_message (a b : List UInt8) :
    splice (a ++ List.replicate (bufferSize - a.length) 0) a.length b
      = a ++ (b ++ List.replicate (bufferSize - (a.length + b.length)) 0) := by
  rw [splice, List.take_left, List.drop_append, List.drop_eq_nil_of_le (by omega),
    List.nil_append, Nat.add_sub_cancel_left, List.drop_replicate, Nat.sub_sub]

/-- The checksum of a message, as it is sent. -/
def crcBytes (body : List UInt8) : List UInt8 := [(crcOf body).1, (crcOf body).2]

/-- A message with its checksum. -/
def sealedMessage (body : List UInt8) : List UInt8 := body ++ crcBytes body

@[simp] theorem sealedMessage_length (body : List UInt8) :
    (sealedMessage body).length = body.length + 2 := by
  rw [sealedMessage, List.length_append]
  rfl

theorem sealMessage_ok {body : List UInt8} (h : body.length < 2 ^ 32) :
    sealMessage body = .ok (sealedMessage body) := sealMessage_eq h

/-- A sealed message at the start of a buffer passes the check. -/
theorem packageCheck_sealed {body : List UInt8} (h : body.length + 2 < 2 ^ 15)
    (rest : List UInt8) :
    packageCheck (sealedMessage body ++ rest) (body.length + 2) = .ok true := by
  have hcheck := packageCheck_append h (crcOf body).1 (crcOf body).2 rest
  rw [sealedMessage, List.append_assoc]
  refine hcheck.trans ?_
  rw [decide_eq_true rfl]

/-- The last two bytes of `block` are the checksum of the others. -/
def checksumOk (block : List UInt8) : Bool :=
  decide (crcBytes (block.take (block.length - 2)) = block.drop (block.length - 2))

theorem crcBytes_eq_iff (body : List UInt8) (a b : UInt8) :
    crcBytes body = [a, b] ↔ crcOf body = (a, b) := by
  rw [crcBytes, Prod.ext_iff, List.cons.injEq, List.cons.injEq, and_iff_left (rfl : [] = [])]

theorem exists_last_two {block : List UInt8} (h : 2 ≤ block.length) :
    ∃ a b, block.drop (block.length - 2) = [a, b] := by
  have htwo : (block.drop (block.length - 2)).length = 2 := by
    rw [List.length_drop]
    omega
  exact List.length_eq_two.mp htwo

/-- `package_check` of a block at the start of the buffer. -/
theorem packageCheck_block {block : List UInt8} {n : Nat} (hlen : block.length = n) (h : 2 ≤ n)
    (hshort : n < 2 ^ 15) (rest : List UInt8) :
    packageCheck (block ++ rest) n = .ok (checksumOk block) := by
  obtain ⟨a, b, hab⟩ := exists_last_two (show 2 ≤ block.length by omega)
  have hbody : (block.take (block.length - 2)).length + 2 = n := by
    rw [List.length_take]
    omega
  have hsplit : block ++ rest = block.take (block.length - 2) ++ a :: b :: rest := by
    conv => lhs; rw [← List.take_append_drop (block.length - 2) block, hab, List.append_assoc]
    rfl
  have hcheck := packageCheck_append (show (block.take (block.length - 2)).length + 2 < 2 ^ 15 by
    omega) a b rest
  rw [← hsplit, show ((block.take (block.length - 2)).length : Int) + 2 = n by omega] at hcheck
  rw [hcheck, checksumOk, hab, decide_eq_decide.mpr (crcBytes_eq_iff _ a b)]

section Messages

variable (head data : List UInt8) {counts : List Nat}

/-- The first `recv` of a message takes its head. -/
theorem recv_head (h : Ample head.length counts) (hfit : head.length ≤ bufferSize)
    (rest : List UInt8) :
    recv { incoming := sealedMessage (head ++ data) ++ rest, counts } zeroBuffer 0 head.length
      = .ok ({ incoming := data ++ crcBytes (head ++ data) ++ rest, counts := counts.tail },
          head ++ List.replicate (bufferSize - head.length) 0) := by
  have hrecv := recv_full head (data ++ crcBytes (head ++ data) ++ rest) h rfl zeroBuffer
    (by rw [Nat.zero_add, zeroBuffer_length]; exact hfit)
  rw [splice_zeroBuffer] at hrecv
  rw [sealedMessage, List.append_assoc, List.append_assoc, ← List.append_assoc data]
  exact hrecv

/-- The second `recv` takes the rest of it. -/
theorem recv_rest (h : Ample (data.length + 2) counts) {len : Int} (hlen : len = data.length + 2)
    (hfit : head.length + data.length + 2 ≤ bufferSize) (rest : List UInt8) :
    ∃ zeros, recv { incoming := data ++ crcBytes (head ++ data) ++ rest, counts }
        (head ++ List.replicate (bufferSize - head.length) 0) head.length len
      = .ok ({ incoming := rest, counts := counts.tail },
          sealedMessage (head ++ data) ++ zeros) := by
  have hbytes : (data ++ crcBytes (head ++ data)).length = data.length + 2 := by
    rw [List.length_append]
    rfl
  have hbuffer : (head ++ List.replicate (bufferSize - head.length) 0).length = bufferSize := by
    rw [List.length_append, List.length_replicate]
    omega
  have hrecv := recv_full (data ++ crcBytes (head ++ data)) rest (hbytes ▸ h)
    (show len = _ by rw [hlen, hbytes]; rfl)
    (head ++ List.replicate (bufferSize - head.length) 0)
    (show head.length + _ ≤ _ by rw [hbuffer, hbytes]; omega)
  rw [splice_message] at hrecv
  refine ⟨List.replicate (bufferSize - (head.length
    + (data ++ crcBytes (head ++ data)).length)) 0, ?_⟩
  rw [hrecv, sealedMessage, List.append_assoc, List.append_assoc, List.append_assoc]

end Messages

/-- `recv` does not change the size of a buffer. -/
theorem recv_length {c c' : Conn} {buffer buffer' : List UInt8} {off : Nat} {len : Int}
    (h : recv c buffer off len = .ok (c', buffer')) : buffer'.length = buffer.length := by
  simp only [recv, store, bind, Except.bind] at h
  split at h
  · cases h
  · next hstore =>
      cases h
      split at hstore
      · next hfit =>
          cases hstore
          rcases hfit with hnil | hfit
          · rw [hnil, splice_nil]
          · exact splice_length hfit
      · cases hstore

/-- A negative length makes the check run out of the buffer, whatever `recv` has
    brought in. -/
theorem recv_negative (c : Conn) {buffer : List UInt8} (off : Nat) (len : Int) {length : Int}
    (hneg : length < 0) (hlow : -2 ^ 15 ≤ length) (hbuffer : buffer.length = bufferSize) :
    (∃ f, recv c buffer off len = .error f) ∨
      ∃ x, recv c buffer off len = .ok x ∧ packageCheck x.2 (length + 2) = .error .read := by
  cases hrecv : recv c buffer off len with
  | error f => exact .inl ⟨f, rfl⟩
  | ok x =>
      refine .inr ⟨x, rfl, packageCheck_neg hneg hlow ?_⟩
      rw [recv_length hrecv, hbuffer]
      decide

-- ============================================================================
-- The two kinds of messages of a transfer
-- ============================================================================

/-- A name as the client sends it. -/
def nameMessage (name : List UInt8) : List UInt8 :=
  sealedMessage (leBytes (name.length + 3) ++ (name ++ [0]))

/-- A name is cut at its NUL. -/
theorem cString_take {name : List UInt8} (hnul : ∀ b ∈ name, b ≠ 0) {n : Nat}
    (hn : name.length < n) (rest : List UInt8) : cString ((name ++ 0 :: rest).take n) = name := by
  obtain ⟨m, rfl⟩ : ∃ m, n = name.length + (m + 1) := ⟨n - name.length - 1, by omega⟩
  rw [List.take_append, List.take_of_length_le (by omega), Nat.add_sub_cancel_left,
    List.take_succ_cons, cString, List.takeWhile_append_of_pos (by simpa using hnul),
    List.takeWhile_cons_of_neg (by simp), List.append_nil]

/-- `receive_name` from its three steps. -/
theorem receiveName_of_steps {c c₁ c₂ : Conn} {b₁ b₂ : List UInt8} {length : Int}
    (h₁ : recv c zeroBuffer 0 2 = .ok (c₁, b₁))
    (hlength : charWord (b₁.getD 0 0) (b₁.getD 1 0) = length)
    (h₂ : recv c₁ b₁ 2 length = .ok (c₂, b₂)) (hcheck : packageCheck b₂ (length + 2) = .ok true) :
    receiveName c = .ok (c₂, some (cString ((b₂.drop 2).take 255))) := by
  simp only [receiveName, h₁, hlength, h₂, hcheck, bind, Except.bind, if_true]

/-- The server takes the text out of a name message. -/
theorem receiveName_sealed {text : List UInt8} (hlen : text.length + 4 ≤ bufferSize)
    (hchar : (text.length + 2) % 256 < 128) {counts : List Nat} (h₁ : Ample 2 counts)
    (h₂ : Ample (text.length + 2) counts.tail) (rest : List UInt8) :
    ∃ zeros, receiveName
        { incoming := sealedMessage (leBytes (text.length + 2) ++ text) ++ rest, counts }
      = .ok ({ incoming := rest, counts := counts.tail.tail },
          some (cString ((text ++ zeros).take 255))) := by
  have htwo : (leBytes (text.length + 2)).length = 2 := rfl
  have hsize : bufferSize = 2048 := rfl
  have hbody : (leBytes (text.length + 2) ++ text).length = text.length + 2 := by
    rw [List.length_append, htwo, Nat.add_comm]
  have hhead := recv_head (leBytes (text.length + 2)) text h₁ (by rw [htwo]; decide) rest
  obtain ⟨zeros, hrest⟩ := recv_rest (leBytes (text.length + 2)) text h₂
    (show ((text.length + 2 : Nat) : Int) = _ by omega) (by rw [htwo]; omega) rest
  have hcheck := packageCheck_sealed (show (leBytes (text.length + 2) ++ text).length + 2
    < 2 ^ 15 by omega) zeros
  rw [hbody] at hcheck
  have hsteps := receiveName_of_steps hhead (lengthField_eq hchar (by omega)) hrest hcheck
  refine ⟨crcBytes (leBytes (text.length + 2) ++ text) ++ zeros, ?_⟩
  rw [hsteps, sealedMessage, List.append_assoc, List.append_assoc]
  rfl

/-- The server takes the name out of its message. -/
theorem receiveName_ok {name : List UInt8} (hnul : ∀ b ∈ name, b ≠ 0) (hlen : name.length ≤ 254)
    (hchar : (name.length + 3) % 256 < 128) {counts : List Nat} (h₁ : Ample 2 counts)
    (h₂ : Ample (name.length + 3) counts.tail) (rest : List UInt8) :
    receiveName { incoming := nameMessage name ++ rest, counts }
      = .ok ({ incoming := rest, counts := counts.tail.tail }, some name) := by
  have htext : (name ++ [0]).length + 2 = name.length + 3 := by
    rw [List.length_append]
    rfl
  obtain ⟨zeros, hrecv⟩ := receiveName_sealed (show (name ++ [0]).length + 4 ≤ bufferSize by
    rw [bufferSize]; omega) (htext ▸ hchar) h₁ (htext ▸ h₂) rest
  have hcut := cString_take hnul (show name.length < 255 by omega) zeros
  rw [htext, List.append_assoc] at hrecv
  rw [nameMessage, hrecv]
  show Except.ok (_, some (cString ((name ++ 0 :: zeros).take 255))) = _
  rw [hcut]

/-- A name whose length field is negative at the server. -/
theorem receiveName_negative {name : List UInt8} (hchar : 128 ≤ (name.length + 3) % 256)
    {counts : List Nat} (h₁ : Ample 2 counts) (rest : List UInt8) :
    ∃ f, receiveName { incoming := nameMessage name ++ rest, counts } = .error f := by
  have htwo : (leBytes (name.length + 3)).length = 2 := rfl
  have hhead := recv_head (leBytes (name.length + 3)) (name ++ [0]) h₁
    (by rw [htwo]; decide) rest
  obtain ⟨hneg, hlow⟩ := lengthField_neg hchar
  have hlength : charWord
      ((leBytes (name.length + 3) ++ List.replicate (bufferSize - 2) 0).getD 0 0)
      ((leBytes (name.length + 3) ++ List.replicate (bufferSize - 2) 0).getD 1 0)
      = lengthField (name.length + 3) := rfl
  have hrecv : recv { incoming := nameMessage name ++ rest, counts } zeroBuffer 0 2 = _ := hhead
  simp only [receiveName, hrecv, htwo, hlength, bind, Except.bind]
  rcases recv_negative
      { incoming := name ++ [0] ++ crcBytes (leBytes (name.length + 3) ++ (name ++ [0])) ++ rest
        counts := counts.tail } 2 (lengthField (name.length + 3)) hneg hlow
      (show (leBytes (name.length + 3) ++ List.replicate (bufferSize - 2) 0).length = bufferSize by
        rw [List.length_append, List.length_replicate, htwo]; rfl) with ⟨f, hf⟩ | ⟨x, hx, hcheck⟩
  · exact ⟨f, by simp only [hf]⟩
  · exact ⟨.read, by simp only [hx, hcheck]⟩

/-- A chunk of the file as the client sends it. -/
def dataMessage (chunk : List UInt8) : List UInt8 := sealedMessage (dataBody chunk)

/-- What one turn of the receive loop comes to. -/
inductive Turn where
  | complete
  | crcError
  | accepted (out : List UInt8) (c : Conn)
  deriving DecidableEq, Repr

/-- One turn of the receive loop, up to what it hands to `write`. -/
def receiveTurn (c : Conn) : Except Fault Turn := do
  let (c, buffer) ← recv c zeroBuffer 0 4
  let length := charWord (buffer.getD 0 0) (buffer.getD 1 0)
  if buffer.getD 2 0 = cmdComplete then .ok .complete
  else do
    let (c, buffer) ← recv c buffer 4 (length - 2)
    let ret ← packageCheck buffer (length + 2)
    if ret then do
      let datas ← loadBytes buffer 4 (length - 4).toNat
      let filebuf ← store zeroBuffer 0 datas
      let out ← fileWrite filebuf (length - 4)
      .ok (.accepted out c)
    else .ok .crcError

/-- The receive loop is one turn after the other. -/
theorem receiveDatas_succ (fuel : Nat) (c : Conn) (written : List UInt8) :
    receiveDatas (fuel + 1) c written =
      match receiveTurn c with
      | .error f => .error f
      | .ok .complete => .ok (written, .complete)
      | .ok .crcError => .ok (written, .crcError)
      | .ok (.accepted out c') => receiveDatas fuel c' (written ++ out) := by
  simp only [receiveDatas, receiveTurn, bind, Except.bind]
  cases recv c zeroBuffer 0 4 with
  | error f => rfl
  | ok x =>
      obtain ⟨c₁, b₁⟩ := x
      simp only []
      split
      · rfl
      · cases recv c₁ b₁ 4 (charWord (b₁.getD 0 0) (b₁.getD 1 0) - 2) with
        | error f => rfl
        | ok y =>
            obtain ⟨c₂, b₂⟩ := y
            simp only []
            cases packageCheck b₂ (charWord (b₁.getD 0 0) (b₁.getD 1 0) + 2) with
            | error f => rfl
            | ok ret =>
                cases ret with
                | false => rfl
                | true =>
                    simp only [if_true]
                    cases loadBytes b₂ 4 (charWord (b₁.getD 0 0) (b₁.getD 1 0) - 4).toNat with
                    | error f => rfl
                    | ok datas =>
                        simp only []
                        cases store zeroBuffer 0 datas with
                        | error f => rfl
                        | ok filebuf =>
                            simp only []
                            cases fileWrite filebuf
                                (charWord (b₁.getD 0 0) (b₁.getD 1 0) - 4) <;> rfl

/-- One turn of the receive loop from its steps. -/
theorem receiveTurn_of_steps {c c₁ c₂ : Conn} {b₁ b₂ datas : List UInt8}
    {length : Int} (h₁ : recv c zeroBuffer 0 4 = .ok (c₁, b₁))
    (hlength : charWord (b₁.getD 0 0) (b₁.getD 1 0) = length) (hcmd : b₁.getD 2 0 ≠ cmdComplete)
    (h₂ : recv c₁ b₁ 4 (length - 2) = .ok (c₂, b₂))
    (hcheck : packageCheck b₂ (length + 2) = .ok true) (hlen : length = datas.length + 4)
    (hdatas : loadBytes b₂ 4 datas.length = .ok datas) (hfit : datas.length ≤ bufferSize) :
    receiveTurn c = .ok (.accepted datas c₂) := by
  have hn : length - 4 = (datas.length : Int) := by omega
  have hstore : store zeroBuffer 0 datas
      = .ok (datas ++ List.replicate (bufferSize - datas.length) 0) := by
    rw [store_of_le (by rw [zeroBuffer_length]; omega), splice_zeroBuffer]
  have hwrite : fileWrite (datas ++ List.replicate (bufferSize - datas.length) 0) (length - 4)
      = .ok datas := by
    rw [hn, fileWrite, if_neg (by omega), Int.toNat_natCast,
      loadBytes_of_le (by rw [List.length_append]; omega), List.drop_zero, List.take_left]
  simp only [receiveTurn, h₁, hlength, if_neg hcmd, h₂, hcheck, bind, Except.bind, if_true]
  rw [hn, Int.toNat_natCast, hdatas]
  simp only [hstore]
  rw [← hn, hwrite]

/-- The four bytes before the data of a chunk. -/
def dataHead (chunk : List UInt8) : List UInt8 := leBytes (chunk.length + 4) ++ [cmdFileDatas, 0]

/-- A data message is accepted, and its chunk goes to the file. -/
theorem receiveTurn_chunk {chunk : List UInt8} (hlen : chunk.length ≤ 2042)
    (hchar : (chunk.length + 4) % 256 < 128) {counts : List Nat} (h₁ : Ample 4 counts)
    (h₂ : Ample (chunk.length + 2) counts.tail) (rest : List UInt8) :
    receiveTurn { incoming := dataMessage chunk ++ rest, counts }
      = .ok (.accepted chunk { incoming := rest, counts := counts.tail.tail }) := by
  have hfour : (dataHead chunk).length = 4 := rfl
  have hbody : (dataHead chunk ++ chunk).length = chunk.length + 4 := by
    rw [List.length_append, hfour, Nat.add_comm]
  have hhead := recv_head (dataHead chunk) chunk h₁ (by rw [hfour]; decide) rest
  obtain ⟨zeros, hrest⟩ := recv_rest (dataHead chunk) chunk h₂
    (show ((chunk.length + 4 : Nat) : Int) - 2 = _ by omega) (by rw [hfour, bufferSize]; omega)
    rest
  have hcheck := packageCheck_sealed (show (dataHead chunk ++ chunk).length + 2 < 2 ^ 15 by omega)
    zeros
  rw [hbody] at hcheck
  have hdatas : loadBytes (sealedMessage (dataHead chunk ++ chunk) ++ zeros) 4 chunk.length
      = .ok chunk := by
    rw [loadBytes_of_le (by
        rw [List.length_append, sealedMessage_length, hbody]; omega), sealedMessage,
      List.append_assoc, List.append_assoc, ← hfour, List.drop_left, List.take_left]
  exact receiveTurn_of_steps hhead (lengthField_eq hchar (by omega))
    (show cmdFileDatas ≠ cmdComplete by decide) hrest hcheck (by omega) hdatas
    (by rw [bufferSize]; omega)

theorem receiveDatas_chunk {chunk : List UInt8} (hlen : chunk.length ≤ 2042)
    (hchar : (chunk.length + 4) % 256 < 128) {counts : List Nat} (h₁ : Ample 4 counts)
    (h₂ : Ample (chunk.length + 2) counts.tail) (fuel : Nat) (rest written : List UInt8) :
    receiveDatas (fuel + 1) { incoming := dataMessage chunk ++ rest, counts } written
      = receiveDatas fuel { incoming := rest, counts := counts.tail.tail } (written ++ chunk) := by
  rw [receiveDatas_succ, receiveTurn_chunk hlen hchar h₁ h₂]

/-- A chunk whose length field is negative at the server. -/
theorem receiveDatas_negative {chunk : List UInt8} (hchar : 128 ≤ (chunk.length + 4) % 256)
    {counts : List Nat} (h₁ : Ample 4 counts) (fuel : Nat) (rest written : List UInt8) :
    ∃ f, receiveDatas (fuel + 1) { incoming := dataMessage chunk ++ rest, counts } written
      = .error f := by
  have hfour : (dataHead chunk).length = 4 := rfl
  have hhead := recv_head (dataHead chunk) chunk h₁ (by rw [hfour]; decide) rest
  obtain ⟨hneg, hlow⟩ := lengthField_neg hchar
  have hlength : charWord
      ((dataHead chunk ++ List.replicate (bufferSize - 4) 0).getD 0 0)
      ((dataHead chunk ++ List.replicate (bufferSize - 4) 0).getD 1 0)
      = lengthField (chunk.length + 4) := rfl
  have hcmd : (dataHead chunk ++ List.replicate (bufferSize - 4) 0).getD 2 0 ≠ cmdComplete :=
    show cmdFileDatas ≠ cmdComplete by decide
  have hrecv : recv { incoming := dataMessage chunk ++ rest, counts } zeroBuffer 0 4 = _ := hhead
  simp only [receiveDatas, hrecv, hfour, hlength, if_neg hcmd, bind, Except.bind]
  rcases recv_negative
      { incoming := chunk ++ crcBytes (dataHead chunk ++ chunk) ++ rest, counts := counts.tail }
      4 (lengthField (chunk.length + 4) - 2) hneg hlow
      (show (dataHead chunk ++ List.replicate (bufferSize - 4) 0).length = bufferSize by
        rw [List.length_append, List.length_replicate, hfour]; rfl) with ⟨f, hf⟩ | ⟨x, hx, hcheck⟩
  · exact ⟨f, by simp only [hf]⟩
  · exact ⟨.read, by simp only [hx, hcheck]⟩

-- ============================================================================
-- Whole transfers
-- ============================================================================

/-- The closing command. -/
def closing : List UInt8 := sealedMessage (commandBody cmdComplete)

/-- The bytes of a transfer. -/
def transferBytes (name : List UInt8) (chunks : List (List UInt8)) : List UInt8 :=
  sealedMessage (commandBody cmdReceive)
    ++ (nameMessage name ++ (chunks.flatMap dataMessage ++ closing))

/-- A name that `file_name` holds and chunks that `buffer` holds. -/
structure Transfer where
  name : List UInt8
  chunks : List (List UInt8)
  name_nul : ∀ b ∈ name, b ≠ 0
  name_le : name.length ≤ 254
  chunk_le : ∀ c ∈ chunks, c.length ≤ 2042

namespace Transfer

variable (T : Transfer)

/-- The file that is transferred. -/
def content : List UInt8 := T.chunks.flatten

def bytes : List UInt8 := transferBytes T.name T.chunks

/-- No length field is negative at the server. -/
def Readable : Prop :=
  (T.name.length + 3) % 256 < 128 ∧ ∀ c ∈ T.chunks, (c.length + 4) % 256 < 128

/-- What the `recv` calls before the closing command ask for. -/
def requests : List Nat :=
  6 :: 2 :: (T.name.length + 3) :: T.chunks.flatMap fun c => [4, c.length + 2]

end Transfer

/-- A server that can create every file. -/
def openEnv : ServerEnv := { canWrite := fun _ => true, content := fun _ => none }

/-- The counts let the calls that ask for `requests` return everything. -/
def FullCounts : List Nat → List Nat → Prop
  | [], _ => True
  | n :: requests, counts => Ample n counts ∧ FullCounts requests counts.tail

theorem fullCounts_nil (requests : List Nat) : FullCounts requests [] := by
  induction requests with
  | nil => trivial
  | cons n requests ih => exact ⟨fun _ h => (nomatch h), ih⟩

theorem fullCounts_append_left {xs ys : List Nat} :
    ∀ {counts : List Nat}, FullCounts (xs ++ ys) counts → FullCounts xs counts := by
  induction xs with
  | nil => exact fun _ => trivial
  | cons n xs ih => exact fun h => ⟨h.1, ih h.2⟩

/-- All chunks are written, and the loop is at what follows them. -/
theorem receiveDatas_chunks (chunks : List (List UInt8)) :
    ∀ {counts : List Nat}, (∀ c ∈ chunks, c.length ≤ 2042) →
      (∀ c ∈ chunks, (c.length + 4) % 256 < 128) →
      FullCounts (chunks.flatMap fun c => [4, c.length + 2]) counts →
      ∀ (fuel : Nat) (rest written : List UInt8),
        receiveDatas (fuel + chunks.length)
            { incoming := chunks.flatMap dataMessage ++ rest, counts } written
          = receiveDatas fuel { incoming := rest, counts := counts.drop (2 * chunks.length) }
              (written ++ chunks.flatten) := by
  induction chunks with
  | nil =>
      intro counts _ _ _ fuel rest written
      rw [List.flatten_nil, List.append_nil]
      rfl
  | cons c chunks ih =>
      intro counts hle hchar hfull fuel rest written
      obtain ⟨h₁, h₂, hfull'⟩ := hfull
      rw [List.flatMap_cons, List.append_assoc, List.length_cons, ← Nat.add_assoc,
        receiveDatas_chunk (hle c (List.mem_cons_self ..)) (hchar c (List.mem_cons_self ..)) h₁ h₂,
        ih (fun d hd => hle d (List.mem_cons_of_mem _ hd))
          (fun d hd => hchar d (List.mem_cons_of_mem _ hd)) hfull', List.flatten_cons,
        List.append_assoc]
      congr 2
      rw [← List.drop_one, ← List.drop_one, List.drop_drop, List.drop_drop]
      congr 1
      omega

/-- The loop ends at the closing command; three bytes of it are enough. -/
theorem receiveTurn_closing {counts : List Nat} (h : Ample 3 counts) :
    receiveTurn { incoming := closing, counts } = .ok .complete := by
  have hcount : recvCount { incoming := closing, counts } 4 = 3 ∨
      recvCount { incoming := closing, counts } 4 = 4 := by
    cases counts with
    | nil => exact .inr rfl
    | cons count counts =>
        have := h count rfl
        show min count 4 = 3 ∨ min count 4 = 4
        omega
  rcases hcount with hcount | hcount
  all_goals
    have hrecv := recv_of_count hcount zeroBuffer
      (show 0 + _ ≤ _ by rw [zeroBuffer_length]; decide)
    rw [splice_zeroBuffer] at hrecv
    simp only [receiveTurn, hrecv, bind, Except.bind]
    exact if_pos rfl

theorem receiveDatas_closing {counts : List Nat} (h : Ample 3 counts) (fuel : Nat)
    (written : List UInt8) :
    receiveDatas (fuel + 1) { incoming := closing, counts } written
      = .ok (written, .complete) := by
  rw [receiveDatas_succ, receiveTurn_closing h]

/-- The first chunk with a negative length field stops the loop. -/
theorem receiveDatas_unreadable (chunks : List (List UInt8)) :
    ∀ {counts : List Nat}, (∀ c ∈ chunks, c.length ≤ 2042) →
      ¬ (∀ c ∈ chunks, (c.length + 4) % 256 < 128) →
      FullCounts (chunks.flatMap fun c => [4, c.length + 2]) counts →
      ∀ (fuel : Nat) (rest written : List UInt8), chunks.length ≤ fuel →
        ∃ f, receiveDatas fuel { incoming := chunks.flatMap dataMessage ++ rest, counts } written
          = .error f := by
  induction chunks with
  | nil =>
      intro counts _ hbad
      exact absurd (List.forall_mem_nil _) hbad
  | cons c chunks ih =>
      intro counts hle hbad hfull fuel rest written hfuel
      obtain ⟨h₁, h₂, hfull'⟩ := hfull
      obtain ⟨fuel, rfl⟩ : ∃ n, fuel = n + 1 := by
        rw [List.length_cons] at hfuel
        exact ⟨fuel - 1, by omega⟩
      rw [List.flatMap_cons, List.append_assoc]
      by_cases hchar : (c.length + 4) % 256 < 128
      · -- this one is written, the bad one comes later
        rw [receiveDatas_chunk (hle c (List.mem_cons_self ..)) hchar h₁ h₂]
        refine ih (fun d hd => hle d (List.mem_cons_of_mem _ hd)) ?_ hfull' fuel rest _ ?_
        · exact fun hrest => hbad (List.forall_mem_cons.mpr ⟨hchar, hrest⟩)
        · exact Nat.le_of_succ_le_succ hfuel
      · exact receiveDatas_negative (by omega) h₁ fuel _ written

/-- Every message is at least a byte long, so a loop with a turn for every byte has
    one left for the closing command. -/
theorem length_le_flatMap_dataMessage (chunks : List (List UInt8)) :
    chunks.length ≤ (chunks.flatMap dataMessage).length := by
  induction chunks with
  | nil => exact Nat.zero_le _
  | cons c chunks ih =>
      have hc : 2 ≤ (dataMessage c).length := by
        rw [dataMessage, sealedMessage_length]
        omega
      rw [List.flatMap_cons, List.length_append, List.length_cons]
      omega

-- ============================================================================
-- `child_handler` on a transfer
-- ============================================================================

/-- The opening command leads into `receive_file`. -/
theorem childHandler_receive {counts : List Nat} (h : Ample 6 counts) (env : ServerEnv)
    (rest : List UInt8) :
    childHandler env { incoming := sealedMessage (commandBody cmdReceive) ++ rest, counts }
      = receiveFile env { incoming := rest, counts := counts.tail } := by
  have hlen : (sealedMessage (commandBody cmdReceive)).length = 6 := rfl
  have hrecv := recv_full (sealedMessage (commandBody cmdReceive)) rest (hlen ▸ h)
    (show (6 : Int) = _ from rfl) zeroBuffer
    (show 0 + _ ≤ _ by rw [hlen, zeroBuffer_length]; decide)
  rw [splice_zeroBuffer] at hrecv
  have hcheck := packageCheck_sealed (show (commandBody cmdReceive).length + 2 < 2 ^ 15 by decide)
    (List.replicate (bufferSize - (sealedMessage (commandBody cmdReceive)).length) 0)
  have hcmd : charWord
      ((sealedMessage (commandBody cmdReceive) ++ List.replicate
        (bufferSize - (sealedMessage (commandBody cmdReceive)).length) 0).getD 2 0)
      ((sealedMessage (commandBody cmdReceive) ++ List.replicate
        (bufferSize - (sealedMessage (commandBody cmdReceive)).length) 0).getD 3 0)
      = cmdReceive.toNat := by
    show charWord 1 0 = 1
    decide
  simp only [childHandler, hrecv, bind, Except.bind]
  rw [show packageCheck _ 6 = _ from hcheck]
  simp only [if_true]
  rw [if_pos hcmd]

section Full

variable (T : Transfer) {counts : List Nat} (hfull : FullCounts T.requests counts) (env : ServerEnv)

include hfull

/-- A negative length field in the name message. -/
theorem childHandler_name_negative (hname : 128 ≤ (T.name.length + 3) % 256) :
    ∃ f, childHandler env { incoming := T.bytes, counts } = .error f := by
  obtain ⟨h₁, h₂, _⟩ := hfull
  obtain ⟨f, hf⟩ := receiveName_negative hname h₂ (T.chunks.flatMap dataMessage ++ closing)
  refine ⟨f, ?_⟩
  rw [Transfer.bytes, transferBytes, childHandler_receive h₁]
  simp only [receiveFile, hf, bind, Except.bind]

/-- The name arrives; the rest depends on the file. -/
theorem childHandler_name (hname : (T.name.length + 3) % 256 < 128) :
    childHandler env { incoming := T.bytes, counts } =
      if env.canWrite T.name then
        (receiveDatas ((T.chunks.flatMap dataMessage ++ closing).length + 1)
            { incoming := T.chunks.flatMap dataMessage ++ closing
              counts := counts.drop 3 } []).map
          fun x => { opened := some T.name, written := x.1, sent := [], ending := x.2 }
      else .ok { opened := some T.name, written := [], sent := [], ending := .notOpened } := by
  obtain ⟨h₁, h₂, h₃, _⟩ := hfull
  have hrecv := receiveName_ok T.name_nul T.name_le hname h₂ h₃
    (T.chunks.flatMap dataMessage ++ closing)
  have hcounts : counts.tail.tail.tail = counts.drop 3 := by
    rw [← List.drop_one, ← List.drop_one, ← List.drop_one, List.drop_drop, List.drop_drop]
  rw [hcounts] at hrecv
  rw [Transfer.bytes, transferBytes, childHandler_receive h₁]
  simp only [receiveFile, hrecv, bind, Except.bind]
  split
  · cases receiveDatas ((T.chunks.flatMap dataMessage ++ closing).length + 1) _ [] <;> rfl
  · rfl

/-- The counts that are left for the chunks. -/
theorem fullCounts_chunks :
    FullCounts (T.chunks.flatMap fun c => [4, c.length + 2]) (counts.drop 3) := by
  obtain ⟨_, _, _, hchunks⟩ := hfull
  rwa [← List.drop_one, ← List.drop_one, ← List.drop_one, List.drop_drop, List.drop_drop]
    at hchunks

/-- A negative length field in a chunk. -/
theorem childHandler_chunk_negative (hname : (T.name.length + 3) % 256 < 128)
    (hopen : env.canWrite T.name = true) (hchunk : ¬ ∀ c ∈ T.chunks, (c.length + 4) % 256 < 128) :
    ∃ f, childHandler env { incoming := T.bytes, counts } = .error f := by
  have hlen := length_le_flatMap_dataMessage T.chunks
  obtain ⟨f, hf⟩ := receiveDatas_unreadable T.chunks T.chunk_le hchunk
    (fullCounts_chunks T hfull)
    ((T.chunks.flatMap dataMessage ++ closing).length + 1) closing []
    (by rw [List.length_append]; omega)
  refine ⟨f, ?_⟩
  rw [childHandler_name T hfull env hname, if_pos hopen, hf]
  rfl

/-- A readable transfer, up to its closing command. -/
theorem childHandler_transfer (hread : T.Readable) (hopen : env.canWrite T.name = true) :
    ∃ fuel, childHandler env { incoming := T.bytes, counts } =
      (receiveDatas (fuel + 1)
          { incoming := closing, counts := counts.drop (3 + 2 * T.chunks.length) } T.content).map
        fun x => { opened := some T.name, written := x.1, sent := [], ending := x.2 } := by
  have hlen := length_le_flatMap_dataMessage T.chunks
  obtain ⟨fuel, hfuel⟩ : ∃ fuel, (T.chunks.flatMap dataMessage ++ closing).length + 1
      = fuel + 1 + T.chunks.length := by
    rw [List.length_append]
    exact ⟨(T.chunks.flatMap dataMessage).length + closing.length - T.chunks.length, by omega⟩
  have hloop := receiveDatas_chunks T.chunks T.chunk_le hread.2 (fullCounts_chunks T hfull)
    (fuel + 1) closing []
  rw [List.drop_drop, List.nil_append] at hloop
  refine ⟨fuel, ?_⟩
  rw [childHandler_name T hfull env hread.1, if_pos hopen, hfuel, hloop, Transfer.content]

end Full

end LinuxCodeDemos.TcpFile

/-
  LinuxCodeDemos.ThreadPool.IOBuffer

  The buffer of `iobuffer.h`: a queue of bytes kept in blocks.

  - `append` takes over a block, or the blocks of another buffer, without looking at the bytes.
  - `pulldown` joins blocks until the first one holds the bytes that are asked for; what the caller
    may read are the first bytes of that block.
  - `&_blocks[0]->at(0)` throws where the first block is empty, so `pulldown(0)` may throw; with at
    least one byte it does not.

  A buffer is a queue of bytes whatever its blocks are (`ioBuffer_refines`).
-/

import LinuxCodeDemos.Lib.Machine
import LinuxCodeDemos.Lib.Memory
import LinuxCodeDemos.Lib.Run

namespace LinuxCodeDemos.ThreadPool

open Lib

/-- `_size` and `_blocks`. -/
structure IOBuffer where
  size : Nat
  blocks : List (List UInt8)
  deriving DecidableEq, Repr

namespace IOBuffer

def empty : IOBuffer := { size := 0, blocks := [] }

/-- `append(vector<char>*)`, which the other forms for bytes come down to.  For no bytes those take
    `&(*d)[0]` of an empty vector, of which nothing is read; `write` of a negative length, a huge
    `size_t`, is left out. -/
def append (b : IOBuffer) (data : List UInt8) : IOBuffer :=
  { size := b.size + data.length, blocks := b.blocks ++ [data] }

/-- `append(IOBuffer*)`. -/
def appendBuffer (b data : IOBuffer) : IOBuffer :=
  { size := b.size + data.size, blocks := b.blocks ++ data.blocks }

/-- The loop of `pulldown`, with the block that was popped and the blocks behind it. -/
def pullLoop (bytes : Nat) : List UInt8 → List (List UInt8) → Except Fault (List (List UInt8))
  | block, [] => if block.length < bytes then .error .read else .ok [block]
  | block, next :: blocks =>
      if block.length < bytes then pullLoop bytes (block ++ next) blocks
      else .ok (block :: next :: blocks)

/-- The blocks of `pulldown` behind its inner `if`. -/
def pullBlocks (bytes : Nat) (block : List UInt8) (blocks : List (List UInt8)) :
    Except Fault (List (List UInt8)) :=
  if block.length < bytes then pullLoop bytes block blocks else .ok (block :: blocks)

/-- `&_blocks[0]->at(0)`: the bytes from there on. -/
def front : List (List UInt8) → Except Fault (List UInt8)
  | (byte :: block) :: _ => .ok (byte :: block)
  | _ => .error .read

/-- `pulldown`; no bytes stand for `NULL`. -/
def pulldown (b : IOBuffer) (bytes : Nat) : Except Fault (IOBuffer × Option (List UInt8)) :=
  if b.size < bytes ∨ b.size = 0 then .ok (b, none)
  else
    match b.blocks with
    | [] => .error .read
    | block :: blocks => do
        let blocks ← pullBlocks bytes block blocks
        let data ← front blocks
        .ok ({ b with blocks }, some data)

/-- The loop of `consume`: `bytes`, `_size` and `_blocks` behind it. -/
def consumeLoop : Nat → Nat → List (List UInt8) → Nat × Nat × List (List UInt8)
  | bytes, size, [] => (bytes, size, [])
  | bytes, size, block :: blocks =>
      if block.length ≤ bytes then consumeLoop (bytes - block.length) (size - block.length) blocks
      else (bytes, size, block :: blocks)

/-- `consume`. -/
def consume (b : IOBuffer) (bytes : Nat) : IOBuffer × Bool :=
  if b.size < bytes ∨ b.size = 0 then (b, false)
  else
    match consumeLoop bytes b.size b.blocks with
    | (_, size, []) => ({ size, blocks := [] }, true)
    | (bytes, size, block :: blocks) =>
        if bytes = 0 then ({ size, blocks := block :: blocks }, true)
        else ({ size := size - bytes, blocks := block.drop bytes :: blocks }, true)

/-- The buffer holds these bytes. -/
structure Holds (b : IOBuffer) (bytes : List UInt8) : Prop where
  size : b.size = bytes.length
  blocks : b.blocks.flatten = bytes

-- ============================================================================
-- One operation
-- ============================================================================

section Operations

variable {b data : IOBuffer} {bytes more : List UInt8}

theorem holds_empty : Holds empty [] := ⟨rfl, rfl⟩

theorem Holds.append (h : b.Holds bytes) (more : List UInt8) :
    (b.append more).Holds (bytes ++ more) where
  size := by
    rw [IOBuffer.append, h.size, List.length_append]
  blocks := by
    rw [IOBuffer.append, List.flatten_append, h.blocks, List.flatten_singleton]

theorem Holds.appendBuffer (h : b.Holds bytes) (hdata : data.Holds more) :
    (b.appendBuffer data).Holds (bytes ++ more) where
  size := by
    rw [IOBuffer.appendBuffer, h.size, hdata.size, List.length_append]
  blocks := by
    rw [IOBuffer.appendBuffer, List.flatten_append, h.blocks, hdata.blocks]

/-- Joining blocks keeps the bytes, and ends with a block that is long enough. -/
theorem pullLoop_ok {n : Nat} (blocks : List (List UInt8)) (block : List UInt8)
    (hn : n ≤ (block ++ blocks.flatten).length) :
    ∃ block' blocks', pullLoop n block blocks = .ok (block' :: blocks') ∧ n ≤ block'.length ∧
      block' ++ blocks'.flatten = block ++ blocks.flatten := by
  induction blocks generalizing block with
  | nil =>
      rw [List.flatten_nil, List.append_nil] at hn
      exact ⟨block, [], if_neg (by omega), hn, rfl⟩
  | cons next blocks ih =>
      by_cases hlt : block.length < n
      · rw [List.flatten_cons, ← List.append_assoc] at hn
        obtain ⟨block', blocks', hloop, hlen, hsame⟩ := ih (block ++ next) hn
        refine ⟨block', blocks', ?_, hlen, ?_⟩
        · rw [pullLoop, if_pos hlt, hloop]
        · rw [hsame, List.flatten_cons, List.append_assoc]
      · exact ⟨block, next :: blocks, if_neg hlt, by omega, rfl⟩

theorem pullBlocks_ok {n : Nat} {block : List UInt8} {blocks : List (List UInt8)}
    (hn : n ≤ (block ++ blocks.flatten).length) :
    ∃ block' blocks', pullBlocks n block blocks = .ok (block' :: blocks') ∧ n ≤ block'.length ∧
      block' ++ blocks'.flatten = block ++ blocks.flatten := by
  by_cases hlt : block.length < n
  · rw [pullBlocks, if_pos hlt]
    exact pullLoop_ok blocks block hn
  · exact ⟨block, blocks, if_neg hlt, by omega, rfl⟩

/-- A block of at least one byte is handed out. -/
theorem front_ok {block : List UInt8} (hpos : 0 < block.length) (blocks : List (List UInt8)) :
    front (block :: blocks) = .ok block := by
  cases block with
  | nil => exact absurd hpos (Nat.lt_irrefl 0)
  | cons byte block => rfl

/-- Asked for at least one byte, `pulldown` keeps the queue and hands out a block that starts
    with the bytes. -/
theorem Holds.pulldown (h : b.Holds bytes) {n : Nat} (hpos : 0 < n) (hle : n ≤ bytes.length) :
    ∃ b' block, b.pulldown n = .ok (b', some block) ∧ b'.Holds bytes ∧
      block.take n = bytes.take n := by
  have hsize := h.size
  have hblocks := h.blocks
  rw [IOBuffer.pulldown, if_neg (by omega)]
  cases hcases : b.blocks with
  | nil =>
      rw [hcases, List.flatten_nil] at hblocks
      rw [← hblocks, List.length_nil] at hle
      omega
  | cons block blocks =>
      rw [hcases, List.flatten_cons] at hblocks
      obtain ⟨block', blocks', hjoin, hlen, hsame⟩ :=
        @pullBlocks_ok n block blocks (hblocks.symm ▸ hle)
      rw [hblocks] at hsame
      refine ⟨{ b with blocks := block' :: blocks' }, block', ?_, ⟨h.size, ?_⟩, ?_⟩
      · dsimp only
        rw [bind_of_ok hjoin, bind_of_ok (front_ok (by omega) blocks')]
      · show (block' :: blocks').flatten = bytes
        rw [List.flatten_cons, hsame]
      · rw [← hsame, List.take_append_of_le_length hlen]

theorem Holds.pulldown_none (h : b.Holds bytes) {n : Nat}
    (hn : bytes.length < n ∨ bytes.length = 0) : b.pulldown n = .ok (b, none) := by
  rw [IOBuffer.pulldown, h.size, if_pos hn]

/-- What the loop of `consume` leaves, with `k` bytes of whole blocks gone. -/
def Consumed (n size : Nat) (blocks : List (List UInt8)) (left : Nat × Nat × List (List UInt8)) :
    Prop :=
  ∃ k, left.1 = n - k ∧ k ≤ n ∧ left.2.1 = size - k ∧
    left.2.2.flatten = blocks.flatten.drop k ∧
    (left.2.2 = [] ∧ left.1 = 0 ∨ ∃ block rest, left.2.2 = block :: rest ∧ left.1 < block.length)

/-- The loop takes whole blocks off the queue. -/
theorem consumeLoop_consumed (blocks : List (List UInt8)) :
    ∀ {n size : Nat}, size = blocks.flatten.length → n ≤ size →
      Consumed n size blocks (consumeLoop n size blocks) := by
  induction blocks with
  | nil =>
      intro n size hsize hn
      rw [List.flatten_nil, List.length_nil] at hsize
      exact ⟨0, rfl, Nat.zero_le _, rfl, rfl, .inl ⟨rfl, by show n = 0; omega⟩⟩
  | cons block blocks ih =>
      intro n size hsize hn
      rw [List.flatten_cons, List.length_append] at hsize
      by_cases hle : block.length ≤ n
      · obtain ⟨k, hleft, hk, hrest, hdrop, hend⟩ :=
          @ih (n - block.length) (size - block.length) (by omega) (by omega)
        rw [consumeLoop, if_pos hle]
        refine ⟨block.length + k, by omega, by omega, by omega, ?_, hend⟩
        rw [hdrop, List.flatten_cons, ← List.drop_drop, List.drop_left]
      · rw [consumeLoop, if_neg hle]
        exact ⟨0, rfl, Nat.zero_le _, rfl, rfl, .inr ⟨block, blocks, rfl, by omega⟩⟩

theorem Holds.consume (h : b.Holds bytes) {n : Nat} (hpos : 0 < bytes.length)
    (hle : n ≤ bytes.length) :
    (b.consume n).2 = true ∧ (b.consume n).1.Holds (bytes.drop n) := by
  have hsize := h.size
  have hblocks := h.blocks
  obtain ⟨k, hleft, hk, hrest, hdrop, hend⟩ :=
    @consumeLoop_consumed b.blocks n b.size (by rw [hsize, hblocks]) (by omega)
  rw [IOBuffer.consume, if_neg (by omega)]
  rcases hloop : consumeLoop n b.size b.blocks with ⟨left, size, blocks⟩
  rw [hloop] at hleft hrest hdrop hend
  rw [hblocks] at hdrop
  dsimp only at hleft hrest hdrop hend ⊢
  rcases hend with ⟨rfl, hzero⟩ | ⟨block, rest, rfl, hlt⟩
  · have hall : k = n := by omega
    refine ⟨rfl, ⟨?_, ?_⟩⟩
    · show size = (bytes.drop n).length
      rw [List.length_drop]
      omega
    · rw [← hall]
      exact hdrop
  · dsimp only
    by_cases hzero : left = 0
    · have hall : k = n := by omega
      rw [if_pos hzero]
      refine ⟨rfl, ⟨?_, ?_⟩⟩
      · show size = (bytes.drop n).length
        rw [List.length_drop]
        omega
      · rw [← hall]
        exact hdrop
    · rw [if_neg hzero]
      refine ⟨rfl, ⟨?_, ?_⟩⟩
      · show size - left = (bytes.drop n).length
        rw [List.length_drop]
        omega
      · show (block.drop left :: rest).flatten = bytes.drop n
        rw [List.flatten_cons] at hdrop
        rw [List.flatten_cons, show n = k + left by omega, ← List.drop_drop, ← hdrop,
          List.drop_append_of_le_length (Nat.le_of_lt hlt)]

theorem Holds.consume_false (h : b.Holds bytes) {n : Nat}
    (hn : bytes.length < n ∨ bytes.length = 0) : b.consume n = (b, false) := by
  rw [IOBuffer.consume, h.size, if_pos hn]

end Operations

-- ============================================================================
-- Any sequence of operations
-- ============================================================================

/-- The calls of a user of the buffer.  A buffer that is appended is made of some blocks. -/
inductive Op where
  | append (data : List UInt8)
  | appendBuffer (blocks : List (List UInt8))
  | size
  | pulldown (bytes : Nat)
  | consume (bytes : Nat)
  deriving DecidableEq, Repr

/-- What a call returns; of the memory that `pulldown` returns, the bytes that were asked for. -/
inductive Result where
  | none
  | size (n : Nat)
  | bytes (data : Option (List UInt8))
  | done (ok : Bool)
  deriving DecidableEq, Repr

/-- A buffer of the given blocks. -/
def ofBlocks (blocks : List (List UInt8)) : IOBuffer :=
  { size := blocks.flatten.length, blocks }

def step (b : IOBuffer) : Op → Except Fault (IOBuffer × Result)
  | .append data => .ok (b.append data, .none)
  | .appendBuffer blocks => .ok (b.appendBuffer (ofBlocks blocks), .none)
  | .size => .ok (b, .size b.size)
  | .pulldown bytes => do
      let (b, data) ← b.pulldown bytes
      .ok (b, .bytes (data.map (·.take bytes)))
  | .consume bytes => .ok ((b.consume bytes).1, .done (b.consume bytes).2)

/-- The queue of bytes that a buffer is meant to be. -/
def queueStep (bytes : List UInt8) : Op → List UInt8 × Result
  | .append data => (bytes ++ data, .none)
  | .appendBuffer blocks => (bytes ++ blocks.flatten, .none)
  | .size => (bytes, .size bytes.length)
  | .pulldown n =>
      (bytes, .bytes (if bytes.length < n ∨ bytes.length = 0 then Option.none
        else some (bytes.take n)))
  | .consume n =>
      if bytes.length < n ∨ bytes.length = 0 then (bytes, .done false)
      else (bytes.drop n, .done true)

theorem Holds.step {b : IOBuffer} {bytes : List UInt8} (h : b.Holds bytes) (op : Op)
    (hop : op ≠ .pulldown 0) :
    ∃ b', b.step op = .ok (b', (queueStep bytes op).2) ∧ b'.Holds (queueStep bytes op).1 := by
  cases op with
  | append data => exact ⟨_, rfl, h.append data⟩
  | appendBuffer blocks => exact ⟨_, rfl, h.appendBuffer ⟨rfl, rfl⟩⟩
  | size => exact ⟨b, by rw [IOBuffer.step, h.size]; rfl, h⟩
  | pulldown n =>
      have hpos : 0 < n := Nat.pos_of_ne_zero fun hzero => hop (by rw [hzero])
      by_cases hn : bytes.length < n ∨ bytes.length = 0
      · refine ⟨b, ?_, h⟩
        rw [IOBuffer.step, bind_of_ok (h.pulldown_none hn), queueStep, if_pos hn]
        rfl
      · obtain ⟨b', block, hpull, hholds, htake⟩ := h.pulldown hpos (by omega)
        refine ⟨b', ?_, hholds⟩
        rw [IOBuffer.step, bind_of_ok hpull, queueStep, if_neg hn]
        show Except.ok (b', Result.bytes (some (block.take n))) = _
        rw [htake]
  | consume n =>
      by_cases hn : bytes.length < n ∨ bytes.length = 0
      · refine ⟨b, ?_, ?_⟩
        · rw [IOBuffer.step, h.consume_false hn, queueStep, if_pos hn]
        · rw [queueStep, if_pos hn]
          exact h
      · obtain ⟨hdone, hholds⟩ := @Holds.consume b bytes h n (by omega) (by omega)
        refine ⟨(b.consume n).1, ?_, ?_⟩
        · rw [IOBuffer.step, hdone, queueStep, if_neg hn]
        · rw [queueStep, if_neg hn]
          exact hholds

end IOBuffer

/-- Any sequence of calls gives what a queue of bytes gives, however the bytes came in blocks. -/
theorem ioBuffer_refines (ops : List IOBuffer.Op) (hops : ∀ op ∈ ops, op ≠ .pulldown 0) :
    ∃ b, runOps IOBuffer.step .empty ops = .ok (b, (runSpec IOBuffer.queueStep [] ops).2) ∧
      b.Holds (runSpec IOBuffer.queueStep [] ops).1 :=
  runOps_refines (fun _ _ op h hop => h.step op hop) IOBuffer.holds_empty ops hops

/-- Two blocks, an empty one between them, joined and taken in other pieces. -/
theorem ioBuffer_refines_abcdef :
    ∃ b, runOps IOBuffer.step .empty
        [.append [97, 98, 99], .appendBuffer [[], [100, 101, 102]], .consume 1, .pulldown 5]
      = .ok (b, [.none, .none, .done true, .bytes (some [98, 99, 100, 101, 102])]) ∧
      b.Holds [98, 99, 100, 101, 102] :=
  ioBuffer_refines
    [.append [97, 98, 99], .appendBuffer [[], [100, 101, 102]], .consume 1, .pulldown 5] (by decide)

end LinuxCodeDemos.ThreadPool

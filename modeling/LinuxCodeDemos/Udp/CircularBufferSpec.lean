/-
  LinuxCodeDemos.Udp.CircularBufferSpec

  The circular buffer refines a bounded FIFO queue of bytes.

  `RingInv rb q` ties the four `int` fields and the block of a ring to the
  queue `q` it holds.  Each operation has one spec lemma (`*_spec`): it
  succeeds, returns what the queue returns and leaves the ring holding the new
  queue.  Callers (the reassembler above) use these lemmas and never unfold an
  operation.

  The run-level statement is `Refines capacity`: every finite sequence of
  calls after `circular_buffer_init` has the outputs of the list queue
  `boundedQueueStep`.  It holds exactly for the capacities for which
  `index + beg_index_` stays in `int`.
-/

import LinuxCodeDemos.Lib.Machine
import LinuxCodeDemos.Udp.CircularBuffer

namespace LinuxCodeDemos.Udp

open Lib

/-- The ring holds the queue `q`. -/
structure RingInv (rb : CircularBuffer) (q : List UInt8) : Prop where
  view : RingView rb.data rb.begIndex q
  block : rb.data.length = rb.capacity
  size : rb.size = q.length
  endIndex : rb.endIndex = wrap rb.capacity (rb.begIndex + q.length)

namespace RingInv

variable {rb : CircularBuffer} {q : List UInt8}

theorem beg_lt (h : RingInv rb q) : rb.begIndex < rb.capacity :=
  h.block ▸ h.view.beg_lt

theorem length_le (h : RingInv rb q) : q.length ≤ rb.capacity :=
  h.block ▸ h.view.fits

theorem end_lt (h : RingInv rb q) : rb.endIndex < rb.capacity := by
  have h1 := h.beg_lt
  have h2 := h.length_le
  rw [h.endIndex]
  exact wrap_lt (by omega)

/-- The index relation of the ring, in the words of its header. -/
theorem end_eq_mod (h : RingInv rb q) :
    rb.endIndex = (rb.begIndex + rb.size) % rb.capacity := by
  have h1 := h.beg_lt
  have h2 := h.length_le
  rw [h.endIndex, h.size, wrap_eq_mod (by omega)]

end RingInv

/-- The bytes in the ring, oldest first. -/
def ringContents (rb : CircularBuffer) : List UInt8 :=
  (List.range rb.size).map fun i => rb.data.getD (wrap rb.capacity (rb.begIndex + i)) 0

theorem ringContents_eq {rb : CircularBuffer} {q : List UInt8} (h : RingInv rb q) :
    ringContents rb = q := by
  apply List.ext_getElem?
  intro i
  rw [ringContents, List.getElem?_map, h.size]
  by_cases hi : i < q.length
  · have hcell := h.view.cell i hi
    rw [h.block] at hcell
    rw [List.getElem?_range hi, Option.map_some, List.getD_eq_getElem?_getD, hcell,
      List.getElem?_eq_getElem hi]
    rfl
  · rw [List.getElem?_eq_none (by rw [List.length_range]; omega),
      List.getElem?_eq_none (by omega)]
    rfl

-- ============================================================================
-- One spec lemma per operation
-- ============================================================================

section Operations

variable {rb : CircularBuffer} {q : List UInt8}

theorem circularBufferReset_spec (h : RingInv rb q) : RingInv (circularBufferReset rb) [] := by
  have hpos : 0 < rb.data.length := by have := h.view.beg_lt; omega
  refine ⟨RingView.empty hpos, h.block, rfl, ?_⟩
  have hcap : 0 < rb.capacity := h.block ▸ hpos
  exact (wrap_of_lt hcap).symm

/-- The new `end_index_` of a single-step write, without the wrap test. -/
theorem end_after_single {cap beg n m : Nat} (hbeg : beg < cap) (hroom : n + m ≤ cap)
    (hend : wrap cap (beg + n) + m ≤ cap) :
    (if wrap cap (beg + n) + m = cap then 0 else wrap cap (beg + n) + m)
      = wrap cap (beg + (n + m)) := by
  unfold wrap at *
  split_ifs at * <;> omega

/-- Bytes that fit between the end of the queue and the end of the block are copied at once. -/
theorem RingInv.append_single (h : RingInv rb q) {bs : List UInt8}
    (hroom : q.length + bs.length ≤ rb.capacity) (hone : bs.length ≤ rb.capacity - rb.endIndex) :
    RingInv { rb with
      data := splice rb.data rb.endIndex bs
      endIndex := if rb.endIndex + bs.length = rb.capacity then 0 else rb.endIndex + bs.length
      size := q.length + bs.length } (q ++ bs) := by
  have hbeg := h.beg_lt
  have hendlt := h.end_lt
  have hblock := h.block
  refine ⟨?_, ?_, ?_, ?_⟩
  · have hv := h.view.append_single (show q.length + bs.length ≤ _ by omega)
      (by rw [hblock, ← h.endIndex]; omega)
    rwa [hblock, ← h.endIndex] at hv
  · exact (splice_length (by omega)).trans hblock
  · rw [List.length_append]
  · rw [List.length_append]
    rw [h.endIndex] at hone hendlt ⊢
    exact end_after_single hbeg hroom (by omega)

/-- A longer copy goes on at the start of the block. -/
theorem RingInv.append_double (h : RingInv rb q) {bs : List UInt8}
    (hroom : q.length + bs.length ≤ rb.capacity) (htwo : ¬ bs.length ≤ rb.capacity - rb.endIndex) :
    RingInv { rb with
      data := splice (splice rb.data rb.endIndex (bs.take (rb.capacity - rb.endIndex))) 0
        (bs.drop (rb.capacity - rb.endIndex))
      endIndex := bs.length - (rb.capacity - rb.endIndex)
      size := q.length + bs.length } (q ++ bs) := by
  have hbeg := h.beg_lt
  have hendlt := h.end_lt
  have hblock := h.block
  have hflat : rb.endIndex = rb.begIndex + q.length := by
    have he := h.endIndex
    by_contra hc
    unfold wrap at he
    split_ifs at he <;> omega
  refine ⟨?_, ?_, ?_, ?_⟩
  · have hv := h.view.append_double (show q.length + bs.length ≤ _ by omega)
      (by rw [hblock, ← h.endIndex]; omega)
    rwa [hblock, ← h.endIndex] at hv
  · have hfirst : (splice rb.data rb.endIndex (bs.take (rb.capacity - rb.endIndex))).length
        = rb.capacity := (splice_length (by rw [List.length_take]; omega)).trans hblock
    exact (splice_length (by rw [hfirst, List.length_drop]; omega)).trans hfirst
  · rw [List.length_append]
  · show bs.length - (rb.capacity - rb.endIndex)
      = wrap rb.capacity (rb.begIndex + (q ++ bs).length)
    rw [List.length_append, wrap_of_le (by omega)]
    omega

theorem circularBufferWrite_spec (h : RingInv rb q) {data : List UInt8} {bytes : Nat}
    (hdata : bytes ≤ data.length) :
    ∃ rb', circularBufferWrite rb data bytes = .ok (rb', min bytes (rb.capacity - q.length)) ∧
      RingInv rb' (q ++ data.take (min bytes (rb.capacity - q.length))) ∧
      rb'.capacity = rb.capacity ∧ rb'.begIndex = rb.begIndex := by
  have hqc := h.length_le
  have hblock := h.block
  have hendlt := h.end_lt
  by_cases hb : bytes = 0
  · subst hb
    exact ⟨rb, by simp [circularBufferWrite], by simpa using h, rfl, rfl⟩
  · simp only [circularBufferWrite, if_neg hb, h.size]
    generalize hm : min bytes (rb.capacity - q.length) = m
    have hmle : m ≤ bytes := by omega
    have hlen : (data.take m).length = m := List.length_take_of_le (by omega)
    have hroom : q.length + (data.take m).length ≤ rb.capacity := by omega
    by_cases hone : m ≤ rb.capacity - rb.endIndex
    · have hload : loadBytes data 0 m = .ok (data.take m) := by
        rw [loadBytes_of_le (by omega), List.drop_zero]
      have hring := h.append_single hroom (by omega)
      rw [hlen] at hring
      rw [if_pos hone, hload]
      simp only [bind, Except.bind]
      rw [store_of_le (by omega)]
      exact ⟨_, rfl, hring, rfl, rfl⟩
    · have hload₁ : loadBytes data 0 (rb.capacity - rb.endIndex)
          = .ok ((data.take m).take (rb.capacity - rb.endIndex)) := by
        rw [loadBytes_of_le (by omega), List.drop_zero, List.take_take,
          Nat.min_eq_left (by omega)]
      have hload₂ : loadBytes data (rb.capacity - rb.endIndex) (m - (rb.capacity - rb.endIndex))
          = .ok ((data.take m).drop (rb.capacity - rb.endIndex)) := by
        rw [loadBytes_of_le (by omega), List.drop_take]
      have hfit₁ : rb.endIndex + ((data.take m).take (rb.capacity - rb.endIndex)).length
          ≤ rb.data.length := by
        rw [List.length_take]
        omega
      have hfit₂ : 0 + ((data.take m).drop (rb.capacity - rb.endIndex)).length
          ≤ (splice rb.data rb.endIndex
              ((data.take m).take (rb.capacity - rb.endIndex))).length := by
        rw [splice_length hfit₁, List.length_drop]
        omega
      have hring := h.append_double hroom (by omega)
      rw [hlen] at hring
      rw [if_neg hone, hload₁, hload₂]
      simp only [bind, Except.bind, store_of_le hfit₁, store_of_le hfit₂]
      exact ⟨_, rfl, hring, rfl, rfl⟩

/-- The new `beg_index_` of the two-branch advance used by `read` and
    `pop_front`. -/
theorem beg_after {cap beg n : Nat} (hbeg : beg < cap) :
    (if n ≤ cap - beg then (if beg + n = cap then 0 else beg + n) else n - (cap - beg))
      = wrap cap (beg + n) := by
  unfold wrap
  split_ifs <;> omega

/-- Advancing the front leaves the end of the queue where it was. -/
theorem end_after_drop {cap beg n len : Nat} (hbeg : beg < cap) (hn : n ≤ len) (hlen : len ≤ cap) :
    wrap cap (beg + len) = wrap cap (wrap cap (beg + n) + (len - n)) := by
  unfold wrap
  split_ifs <;> omega

/-- Dropping `n` bytes keeps the ring relation. -/
theorem RingInv.advance (h : RingInv rb q) {n : Nat} (hn : n ≤ q.length) :
    RingInv { rb with begIndex := wrap rb.capacity (rb.begIndex + n), size := rb.size - n }
      (q.drop n) := by
  have hv := h.view.drop hn
  rw [h.block] at hv
  refine ⟨hv, h.block, by simp only [List.length_drop, h.size], ?_⟩
  rw [List.length_drop]
  show rb.endIndex = _
  rw [h.endIndex, ← end_after_drop h.beg_lt hn h.length_le]

theorem wrap_le_add {cap a : Nat} : wrap cap a ≤ a := by
  unfold wrap
  split <;> omega

theorem circularBufferPopFront_spec (h : RingInv rb q) (popSize : Nat) :
    RingInv (circularBufferPopFront rb popSize) (q.drop popSize) ∧
      (circularBufferPopFront rb popSize).capacity = rb.capacity ∧
      (circularBufferPopFront rb popSize).begIndex ≤ rb.begIndex + min popSize q.length := by
  have heq : circularBufferPopFront rb popSize =
      { rb with
        begIndex := wrap rb.capacity (rb.begIndex + min popSize q.length)
        size := rb.size - min popSize q.length } := by
    rw [← beg_after h.beg_lt]
    simp only [circularBufferPopFront, h.size]
    split <;> rfl
  have hinv := h.advance (Nat.min_le_right popSize q.length)
  have hdrop : q.drop (min popSize q.length) = q.drop popSize := by
    by_cases hle : popSize ≤ q.length
    · rw [Nat.min_eq_left hle]
    · rw [Nat.min_eq_right (by omega), List.drop_length, List.drop_eq_nil_of_le (by omega)]
  rw [heq]
  exact ⟨hdrop ▸ hinv, rfl, wrap_le_add⟩

theorem circularBufferRead_spec (h : RingInv rb q) (bytes : Nat) :
    circularBufferRead rb bytes =
      .ok (circularBufferPopFront rb bytes, q.take bytes, min bytes q.length) := by
  have hbeg := h.beg_lt
  have hqc := h.length_le
  have hblock := h.block
  by_cases hb : bytes = 0
  · subst hb
    have hpop : circularBufferPopFront rb 0 = rb := by
      simp only [circularBufferPopFront, Nat.zero_min, Nat.zero_le, if_true, Nat.add_zero,
        Nat.sub_zero, if_neg (show ¬ rb.begIndex = rb.capacity by omega)]
    simp [circularBufferRead, hpop]
  · have htake : q.take (min bytes q.length) = q.take bytes := by
      by_cases hle : bytes ≤ q.length
      · rw [Nat.min_eq_left hle]
      · rw [Nat.min_eq_right (by omega), List.take_length, List.take_of_length_le (by omega)]
    simp only [circularBufferRead, circularBufferPopFront, if_neg hb, h.size]
    rw [← htake]
    have hm : min bytes q.length ≤ q.length := Nat.min_le_right ..
    generalize min bytes q.length = m at hm ⊢
    by_cases hone : m ≤ rb.capacity - rb.begIndex
    · rw [if_pos hone, if_pos hone, loadBytes_of_le (by omega),
        h.view.take_single hm (by omega)]
      rfl
    · have htwo := h.view.take_double hm (by omega)
      rw [hblock] at htwo
      rw [if_neg hone, if_neg hone, loadBytes_of_le (by omega), loadBytes_of_le (by omega),
        List.drop_zero]
      simp only [bind, Except.bind]
      rw [List.take_of_length_le (by rw [List.length_drop]; omega), htwo]

theorem circularBufferGet_spec (h : RingInv rb q) {index : Nat} (hi : index < q.length)
    (hint : index + rb.begIndex ≤ intMax) (value : UInt8) :
    circularBufferGet rb index value = .ok (0, q[index]) := by
  have hcell := h.view.get hi
  rw [h.block, List.getElem?_eq_getElem hi] at hcell
  simp only [circularBufferGet, h.size, if_neg (show ¬ index ≥ q.length by omega),
    if_neg (show ¬ index + rb.begIndex > intMax by omega), load_eq_ok hcell]
  rfl

/-- Inside the queue a `get` is right, or its index sum leaves `int`. -/
theorem circularBufferGet_cases (h : RingInv rb q) {index : Nat} (hi : index < q.length)
    (value : UInt8) :
    circularBufferGet rb index value = .ok (0, q[index]) ∨
      circularBufferGet rb index value = .error .overflow ∧ intMax < index + rb.begIndex := by
  by_cases hint : index + rb.begIndex ≤ intMax
  · exact .inl (circularBufferGet_spec h hi hint value)
  · refine .inr ⟨?_, by omega⟩
    rw [circularBufferGet, h.size, if_neg (by omega), if_pos (by omega)]

theorem circularBufferGet_past (h : RingInv rb q) {index : Nat} (hi : q.length ≤ index)
    (value : UInt8) : circularBufferGet rb index value = .ok (-1, value) := by
  simp only [circularBufferGet, h.size, if_pos hi]

end Operations

-- ============================================================================
-- The bounded queue and the refinement over runs
-- ============================================================================

/-- A call on the ring, with its arguments. -/
inductive RingOp where
  | write (data : List UInt8)
  | read (bytes : Nat)
  | get (index : Nat) (value : UInt8)
  | popFront (popSize : Nat)
  | size
  | reset

/-- What the caller of an operation observes. -/
inductive RingOut where
  | count (n : Nat)
  | bytes (data : List UInt8) (n : Nat)
  | value (code : Int) (v : UInt8)
  | done
  deriving DecidableEq

/-- The operation as the C code performs it. -/
def circularBufferStep (rb : CircularBuffer) : RingOp → Except Fault (CircularBuffer × RingOut)
  | .write data => do
      let (rb', n) ← circularBufferWrite rb data data.length
      .ok (rb', .count n)
  | .read bytes => do
      let (rb', out, n) ← circularBufferRead rb bytes
      .ok (rb', .bytes out n)
  | .get index value => do
      let (code, v) ← circularBufferGet rb index value
      .ok (rb, .value code v)
  | .popFront popSize => .ok (circularBufferPopFront rb popSize, .done)
  | .size => .ok (rb, .count (circularBufferSize rb))
  | .reset => .ok (circularBufferReset rb, .done)

/-- The same operation on a list queue of the given capacity. -/
def boundedQueueStep (capacity : Nat) (q : List UInt8) : RingOp → List UInt8 × RingOut
  | .write data =>
      let n := min data.length (capacity - q.length)
      (q ++ data.take n, .count n)
  | .read bytes => (q.drop bytes, .bytes (q.take bytes) (min bytes q.length))
  | .get index value =>
      match q[index]? with
      | some v => (q, .value 0 v)
      | none => (q, .value (-1) value)
  | .popFront popSize => (q.drop popSize, .done)
  | .size => (q, .count q.length)
  | .reset => ([], .done)

/-- The bounds and the index equation the fields keep. -/
def IndexInv (capacity : Nat) (rb : CircularBuffer) : Prop :=
  rb.capacity = capacity ∧ rb.begIndex < capacity ∧ rb.endIndex < capacity ∧
    rb.size ≤ capacity ∧ rb.endIndex = (rb.begIndex + rb.size) % capacity

/-- Every sequence of calls after `circular_buffer_init (capacity)`, whatever
    the allocated block contained, is served as by the bounded queue and leaves
    the indices in range. -/
def Refines (capacity : Nat) : Prop :=
  ∀ (block : List UInt8) (rb : CircularBuffer), block.length = capacity →
    circularBufferInit capacity (some block) = some rb →
    ∀ ops : List RingOp, ∃ rb',
      runOps circularBufferStep rb ops
        = .ok (rb', (runSpec (boundedQueueStep capacity) [] ops).2) ∧
      IndexInv capacity rb'

/-- The simulation relation: the ring of this capacity holds the queue. -/
def RingSim (capacity : Nat) (rb : CircularBuffer) (q : List UInt8) : Prop :=
  RingInv rb q ∧ rb.capacity = capacity

theorem RingSim.indexInv {capacity : Nat} {rb : CircularBuffer} {q : List UInt8}
    (h : RingSim capacity rb q) : IndexInv capacity rb := by
  obtain ⟨hinv, rfl⟩ := h
  exact ⟨rfl, hinv.beg_lt, hinv.end_lt, hinv.size ▸ hinv.length_le, hinv.end_eq_mod⟩

/-- A freshly initialised ring holds the empty queue. -/
theorem circularBufferInit_sim {capacity : Nat} {block : List UInt8} {rb : CircularBuffer}
    (hpos : 1 ≤ capacity) (hblock : block.length = capacity)
    (h : circularBufferInit capacity (some block) = some rb) : RingSim capacity rb [] := by
  cases h
  refine ⟨⟨RingView.empty (by show 0 < block.length; omega), hblock, rfl, ?_⟩, rfl⟩
  exact (wrap_of_lt hpos).symm

/-- A `get` of this operation keeps `index + beg_index_` in `int`. -/
def RingOp.InInt (rb : CircularBuffer) (q : List UInt8) : RingOp → Prop
  | .get index _ => index < q.length → index + rb.begIndex ≤ intMax
  | _ => True

/-- One call: same output, same queue. -/
theorem circularBufferStep_refines {capacity : Nat} {rb : CircularBuffer} {q : List UInt8}
    (h : RingSim capacity rb q) (op : RingOp) (hint : op.InInt rb q) :
    ∃ rb', circularBufferStep rb op = .ok (rb', (boundedQueueStep capacity q op).2) ∧
      RingSim capacity rb' (boundedQueueStep capacity q op).1 := by
  obtain ⟨hinv, rfl⟩ := h
  cases op with
  | write data =>
      obtain ⟨rb', hw, hinv', hcap, -⟩ := circularBufferWrite_spec hinv (Nat.le_refl data.length)
      exact ⟨rb', by simp only [circularBufferStep, hw]; rfl, hinv', hcap⟩
  | read bytes =>
      obtain ⟨hinv', hcap, -⟩ := circularBufferPopFront_spec hinv bytes
      exact ⟨_, by simp only [circularBufferStep, circularBufferRead_spec hinv]; rfl, hinv', hcap⟩
  | get index value =>
      by_cases hi : index < q.length
      · refine ⟨rb, ?_, ?_⟩
        · simp only [circularBufferStep, circularBufferGet_spec hinv hi (hint hi) value,
            boundedQueueStep, List.getElem?_eq_getElem hi]
          rfl
        · simp only [boundedQueueStep, List.getElem?_eq_getElem hi]
          exact ⟨hinv, rfl⟩
      · refine ⟨rb, ?_, ?_⟩
        · simp only [circularBufferStep, circularBufferGet_past hinv (Nat.not_lt.mp hi) value,
            boundedQueueStep, List.getElem?_eq_none (Nat.not_lt.mp hi)]
          rfl
        · simp only [boundedQueueStep, List.getElem?_eq_none (Nat.not_lt.mp hi)]
          exact ⟨hinv, rfl⟩
  | popFront popSize =>
      obtain ⟨hinv', hcap, -⟩ := circularBufferPopFront_spec hinv popSize
      exact ⟨_, rfl, hinv', hcap⟩
  | size =>
      refine ⟨rb, ?_, hinv, rfl⟩
      simp only [circularBufferStep, circularBufferSize, boundedQueueStep, hinv.size]
  | reset => exact ⟨_, rfl, circularBufferReset_spec hinv, rfl⟩

/-- Up to `2^30` bytes no index sum leaves `int`, so the ring is the queue. -/
theorem refines_of_le {capacity : Nat} (hpos : 1 ≤ capacity) (hle : capacity ≤ 2 ^ 30) :
    Refines capacity := by
  intro block rb hblock hinit ops
  have hstep : ∀ s q op, RingSim capacity s q → True →
      ∃ s', circularBufferStep s op = .ok (s', (boundedQueueStep capacity q op).2) ∧
        RingSim capacity s' (boundedQueueStep capacity q op).1 := by
    intro s q op hs _
    apply circularBufferStep_refines hs
    have hbeg := hs.1.beg_lt
    have hlen := hs.1.length_le
    have hcap := hs.2
    cases op <;> simp only [RingOp.InInt, intMax]
    intro hi
    omega
  obtain ⟨rb', hrun, hsim⟩ := runOps_refines hstep
    (circularBufferInit_sim hpos hblock hinit) ops (fun _ _ => trivial)
  exact ⟨rb', hrun, hsim.indexInv⟩

/-- The calls that drive `index + beg_index_` to `2 * (capacity - 1)`: fill the
    ring, keep its last byte only, fill it again and ask for the last byte. -/
def overflowOps (capacity : Nat) : List RingOp :=
  [.write (List.replicate capacity 0), .popFront (capacity - 1),
    .write (List.replicate (capacity - 1) 0), .get (capacity - 1) 0]

/-- Above `2^30` bytes those calls leave `int` in `circular_buffer_get`. -/
theorem overflowOps_fault {capacity : Nat} {block : List UInt8} {rb : CircularBuffer}
    (hgt : 2 ^ 30 < capacity) (hblock : block.length = capacity)
    (hinit : circularBufferInit capacity (some block) = some rb) :
    runOps circularBufferStep rb (overflowOps capacity) = .error .overflow := by
  obtain ⟨hinv, hcap⟩ := circularBufferInit_sim (by omega) hblock hinit
  have hbeg : rb.begIndex = 0 := by cases hinit; rfl
  -- fill the ring
  obtain ⟨rb₁, hw₁, hinv₁, hcap₁, hbeg₁⟩ :=
    circularBufferWrite_spec hinv (Nat.le_refl (List.replicate capacity 0).length)
  simp only [List.length_replicate, List.length_nil, hcap, Nat.sub_zero, Nat.min_self,
    List.nil_append, List.take_replicate] at hw₁ hinv₁
  -- keep one byte
  have hsize₁ : rb₁.size = capacity := by rw [hinv₁.size, List.length_replicate]
  obtain ⟨hinv₂, hcap₂, -⟩ := circularBufferPopFront_spec hinv₁ (capacity - 1)
  have hbeg₂ : (circularBufferPopFront rb₁ (capacity - 1)).begIndex = capacity - 1 := by
    have hc : rb₁.capacity = capacity := hcap₁.trans hcap
    simp only [circularBufferPopFront, hsize₁, hbeg₁, hbeg, hc, Nat.zero_add, Nat.sub_zero]
    rw [Nat.min_eq_left (by omega), if_pos (by omega), if_neg (by omega)]
  -- fill it again
  obtain ⟨rb₃, hw₃, hinv₃, -, hbeg₃⟩ :=
    circularBufferWrite_spec hinv₂ (Nat.le_refl (List.replicate (capacity - 1) 0).length)
  have hsize₃ : rb₃.size = capacity := by
    rw [hinv₃.size]
    simp only [List.length_append, List.length_drop, List.length_take, List.length_replicate,
      hcap₂, hcap₁, hcap]
    omega
  -- ask for the last byte
  have hget : circularBufferGet rb₃ (capacity - 1) 0 = .error .overflow := by
    rw [circularBufferGet, if_neg (by omega), if_pos (by rw [hbeg₃, hbeg₂, intMax]; omega)]
  simp only [List.length_replicate] at hw₃
  simp only [overflowOps, runOps, circularBufferStep, List.length_replicate, hw₁, hw₃, hget,
    bind, Except.bind]

/-- The ring is the bounded FIFO queue over all call sequences exactly when its
    capacity is at most `2^30`: above that `index + beg_index_` overflows in
    `circular_buffer_get`. -/
theorem circularBuffer_refines_iff (capacity : Nat) (hpos : 1 ≤ capacity) :
    Refines capacity ↔ capacity ≤ 2 ^ 30 := by
  refine ⟨fun h => ?_, refines_of_le hpos⟩
  by_contra hgt
  obtain ⟨rb', hrun, -⟩ := h (List.replicate capacity 0) _ List.length_replicate rfl
    (overflowOps capacity)
  rw [overflowOps_fault (by omega) List.length_replicate rfl] at hrun
  cases hrun

/-- The ring of the demo programs (`udp_piece_init (64*1024)`) is the queue. -/
theorem circularBuffer_refines_demo : Refines (64 * 1024) ↔ 64 * 1024 ≤ 2 ^ 30 :=
  circularBuffer_refines_iff (64 * 1024) (by omega)

/-- A ring of `2^30 + 1` bytes is not. -/
theorem circularBuffer_overflow : ¬ Refines (2 ^ 30 + 1) := by
  intro h
  obtain ⟨rb', hrun, -⟩ := h (List.replicate (2 ^ 30 + 1) 0) _ List.length_replicate rfl
    (overflowOps (2 ^ 30 + 1))
  rw [overflowOps_fault (Nat.lt_succ_self _) List.length_replicate rfl] at hrun
  cases hrun

end LinuxCodeDemos.Udp

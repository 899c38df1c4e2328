/-
  LinuxCodeDemos.Udp.CircularBuffer

  The byte ring of `socket/udp/udp-piece/circular_buffer.c`.

  Indices and counts are C `int`s that the code keeps between `0` and the
  capacity, so they are naturals here.  The only sum that can leave `int` is
  `index + beg_index_` in `circular_buffer_get`; it is checked and answered
  with `Fault.overflow`.  Every `memcpy` goes through the checked accesses of
  `Lib.Memory`.
-/

import LinuxCodeDemos.Lib.Ring

namespace LinuxCodeDemos.Udp

open Lib

/-- `circular_buffer_t`. -/
structure CircularBuffer where
  begIndex : Nat
  endIndex : Nat
  size : Nat
  capacity : Nat
  data : List UInt8
  deriving DecidableEq, Repr

/-- `circular_buffer_init`: the fields are zeroed and `data` is the block that
    `malloc (capacity)` returned, with whatever it contained. -/
def circularBufferInit (capacity : Nat) (data : Option (List UInt8)) : Option CircularBuffer :=
  match data with
  | none => none
  | some block => some { begIndex := 0, endIndex := 0, size := 0, capacity, data := block }

/-- `circular_buffer_reset`. -/
def circularBufferReset (rb : CircularBuffer) : CircularBuffer :=
  { rb with begIndex := 0, endIndex := 0, size := 0 }

/-- `circular_buffer_write`: the ring after the call and the returned count. -/
def circularBufferWrite (rb : CircularBuffer) (data : List UInt8) (bytes : Nat) :
    Except Fault (CircularBuffer × Nat) :=
  if bytes = 0 then .ok (rb, 0)
  else
    let bytesToWrite := min bytes (rb.capacity - rb.size)
    -- Write in a single step
    if bytesToWrite ≤ rb.capacity - rb.endIndex then do
      let src ← loadBytes data 0 bytesToWrite
      let cells ← store rb.data rb.endIndex src
      let endIndex := rb.endIndex + bytesToWrite
      .ok ({ rb with
          data := cells
          endIndex := if endIndex = rb.capacity then 0 else endIndex
          size := rb.size + bytesToWrite }, bytesToWrite)
    -- Write in two steps
    else do
      let size1 := rb.capacity - rb.endIndex
      let src1 ← loadBytes data 0 size1
      let cells1 ← store rb.data rb.endIndex src1
      let size2 := bytesToWrite - size1
      let src2 ← loadBytes data size1 size2
      let cells2 ← store cells1 0 src2
      .ok ({ rb with
          data := cells2
          endIndex := size2
          size := rb.size + bytesToWrite }, bytesToWrite)

/-- `circular_buffer_read`: the ring, the bytes copied to the caller's `data`
    and the returned count. -/
def circularBufferRead (rb : CircularBuffer) (bytes : Nat) :
    Except Fault (CircularBuffer × List UInt8 × Nat) :=
  if bytes = 0 then .ok (rb, [], 0)
  else
    let bytesToRead := min bytes rb.size
    -- Read in a single step
    if bytesToRead ≤ rb.capacity - rb.begIndex then do
      let out ← loadBytes rb.data rb.begIndex bytesToRead
      let begIndex := rb.begIndex + bytesToRead
      .ok ({ rb with
          begIndex := if begIndex = rb.capacity then 0 else begIndex
          size := rb.size - bytesToRead }, out, bytesToRead)
    -- Read in two steps
    else do
      let size1 := rb.capacity - rb.begIndex
      let out1 ← loadBytes rb.data rb.begIndex size1
      let size2 := bytesToRead - size1
      let out2 ← loadBytes rb.data 0 size2
      .ok ({ rb with
          begIndex := size2
          size := rb.size - bytesToRead }, out1 ++ out2, bytesToRead)

/-- `circular_buffer_get`: the return code and what `*value` holds afterwards. -/
def circularBufferGet (rb : CircularBuffer) (index : Nat) (value : UInt8) :
    Except Fault (Int × UInt8) :=
  if index ≥ rb.size then .ok (-1, value)
  else if index + rb.begIndex > intMax then .error .overflow
  else do
    let tempIndex := (index + rb.begIndex) % rb.capacity
    let v ← load rb.data tempIndex
    .ok (0, v)

/-- `circular_buffer_pop_front`. -/
def circularBufferPopFront (rb : CircularBuffer) (popSize : Nat) : CircularBuffer :=
  let popBytes := min popSize rb.size
  -- pop in a single step
  if popBytes ≤ rb.capacity - rb.begIndex then
    let begIndex := rb.begIndex + popBytes
    { rb with
      begIndex := if begIndex = rb.capacity then 0 else begIndex
      size := rb.size - popBytes }
  -- pop in two steps
  else
    let size1 := rb.capacity - rb.begIndex
    let size2 := popBytes - size1
    { rb with begIndex := size2, size := rb.size - popBytes }

/-- `circular_buffer_size`. -/
def circularBufferSize (rb : CircularBuffer) : Nat := rb.size

end LinuxCodeDemos.Udp

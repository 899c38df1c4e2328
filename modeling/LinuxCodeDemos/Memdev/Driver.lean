/-
  LinuxCodeDemos.Memdev.Driver

  The driver of `linux_driver_demo/memdev`: two blocks of kernel memory behind the
  calls `open`, `read`, `write` and `llseek`.

  - `private_data` of an open file is the index of its device in `mem_devp`.
  - The kernel hands `read` and `write` the file's position and stores it back; a
    call on a descriptor that is not open does not reach the driver.
  - `left` is what `copy_to_user` or `copy_from_user` return, the number of bytes
    that could not be copied.  What `copy_from_user` could not copy it fills with
    zeros.
  - `loff_t` is a 64-bit integer whose sums wrap, `unsigned long` has the width of
    the machine.
-/

import LinuxCodeDemos.Lib.Memory

namespace LinuxCodeDemos.Memdev

open Lib

def memdevNrDevs : Nat := 2

def memdevSize : Nat := 4096

def enodev : Int := 19
def einval : Int := 22
def efault : Int := 14
def ebadf : Int := 9

inductive Abi where
  | ilp32
  | lp64
  deriving DecidableEq, Repr

/-- The bits of an `unsigned long`. -/
def Abi.longBits : Abi → Nat
  | .ilp32 => 32
  | .lp64 => 64

/-- `struct file`. -/
structure File where
  privateData : Nat
  fPos : Int64
  deriving DecidableEq, Repr

/-- The result of a call and, for `read`, the bytes that it leaves in the caller's buffer. -/
structure Reply where
  ret : Int
  bytes : List UInt8 := []
  deriving DecidableEq, Repr

-- ============================================================================
-- The calls
-- ============================================================================

/-- `mem_open`: the file's `private_data`. -/
def memOpen (num : Nat) : Except Int Nat :=
  if memdevNrDevs ≤ num then .error (-enodev) else .ok num

/-- `unsigned long p = *ppos`. -/
def toLong (abi : Abi) (ppos : Int64) : Nat := (ppos.toInt % 2 ^ abi.longBits).toNat

/-- `count` after it was cut to what is left of the device. -/
def clamp (size p : Nat) : Nat :=
  if memdevSize - p < size % 2 ^ 32 then memdevSize - p else size % 2 ^ 32

/-- `mem_read`: its reply and the position. -/
def memRead (abi : Abi) (data : List UInt8) (ppos : Int64) (size left : Nat) :
    Except Fault (Reply × Int64) :=
  let p := toLong abi ppos
  if memdevSize ≤ p then .ok ({ ret := 0 }, ppos)
  else do
    let count := clamp size p
    let bytes ← loadBytes data p count
    if left ≠ 0 then .ok ({ ret := -efault, bytes := bytes.take (count - left) }, ppos)
    else .ok ({ ret := count, bytes }, ppos + Int64.ofNat count)

/-- `copy_from_user`. -/
def copyFromUser (buf : List UInt8) (count left : Nat) : List UInt8 :=
  buf.take (count - left) ++ List.replicate (min left count) 0

/-- `mem_write`: its reply, the device's memory and the position. -/
def memWrite (abi : Abi) (data : List UInt8) (ppos : Int64) (buf : List UInt8) (left : Nat) :
    Except Fault (Reply × List UInt8 × Int64) :=
  let p := toLong abi ppos
  if memdevSize ≤ p then .ok ({ ret := 0 }, data, ppos)
  else do
    let count := clamp buf.length p
    let data ← store data p (copyFromUser buf count left)
    if left ≠ 0 then .ok ({ ret := -efault }, data, ppos)
    else .ok ({ ret := count }, data, ppos + Int64.ofNat count)

/-- `newpos` in `mem_llseek`. -/
def newpos (fPos offset : Int64) (whence : Int32) : Option Int64 :=
  if whence = 0 then some offset
  else if whence = 1 then some (fPos + offset)
  else if whence = 2 then some (Int64.ofNat (memdevSize - 1) + offset)
  else none

/-- `mem_llseek`: its reply and the position. -/
def memLlseek (fPos offset : Int64) (whence : Int32) : Reply × Int64 :=
  match newpos fPos offset whence with
  | none => ({ ret := -einval }, fPos)
  | some pos =>
      if pos < 0 ∨ Int64.ofNat memdevSize < pos then ({ ret := -einval }, fPos)
      else ({ ret := pos.toInt }, pos)

-- ============================================================================
-- The driver under a sequence of calls
-- ============================================================================

/-- The devices of `mem_devp` and the open files. -/
structure Driver where
  memDevp : List (List UInt8)
  files : List File
  deriving DecidableEq, Repr

/-- `memdev_init`. -/
def memdevInit : Driver where
  memDevp := List.replicate memdevNrDevs (List.replicate memdevSize 0)
  files := []

inductive Call where
  | open (num : Nat)
  | read (fd size left : Nat)
  | write (fd : Nat) (buf : List UInt8) (left : Nat)
  | llseek (fd : Nat) (offset : Int64) (whence : Int32)
  deriving DecidableEq, Repr

/-- One call.  A new file gets the next free descriptor and starts at position 0. -/
def call (abi : Abi) (d : Driver) : Call → Except Fault (Driver × Reply)
  | .open num =>
      match memOpen num with
      | .error ret => .ok (d, { ret })
      | .ok dev =>
          .ok ({ d with files := d.files ++ [{ privateData := dev, fPos := 0 }] },
            { ret := d.files.length })
  | .read fd size left =>
      match d.files[fd]? with
      | none => .ok (d, { ret := -ebadf })
      | some f => do
          let data ← load d.memDevp f.privateData
          let (reply, pos) ← memRead abi data f.fPos size left
          .ok ({ d with files := d.files.set fd { f with fPos := pos } }, reply)
  | .write fd buf left =>
      match d.files[fd]? with
      | none => .ok (d, { ret := -ebadf })
      | some f => do
          let data ← load d.memDevp f.privateData
          let (reply, data, pos) ← memWrite abi data f.fPos buf left
          .ok ({ memDevp := d.memDevp.set f.privateData data
                 files := d.files.set fd { f with fPos := pos } }, reply)
  | .llseek fd offset whence =>
      match d.files[fd]? with
      | none => .ok (d, { ret := -ebadf })
      | some f =>
          let (reply, pos) := memLlseek f.fPos offset whence
          .ok ({ d with files := d.files.set fd { f with fPos := pos } }, reply)

end LinuxCodeDemos.Memdev

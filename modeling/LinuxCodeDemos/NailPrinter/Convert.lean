/-
  LinuxCodeDemos.NailPrinter.Convert

  `InitConvertTable` and `ConvertYUV2RGB` of `NailPrinterServer/convert.c`.

  - The tables are lists, filled by the loops of the source.  A `>>` of a negative `int` is
    arithmetic, so it is a division that rounds down.
  - A source pointer is a block with an offset, since the three planes may be parts of one block.
    The output is a block of its own, which `dst_ori` points at the start of.
  - Every `int` operation is checked (`checkInt`), every access stays inside its block or faults.
-/

import LinuxCodeDemos.Lib.While

namespace LinuxCodeDemos.NailPrinter

open Lib

/-- The static tables. -/
structure Tables where
  crvTab : List Int
  cbuTab : List Int
  cguTab : List Int
  cgvTab : List Int
  tab76309 : List Int
  clp : List UInt8

/-- Static data is zero. -/
def Tables.zero : Tables :=
  { crvTab := List.replicate 256 0, cbuTab := List.replicate 256 0, cguTab := List.replicate 256 0
    cgvTab := List.replicate 256 0, tab76309 := List.replicate 256 0
    clp := List.replicate 1024 0 }

/-- A turn of the first loop; the products are of type `long`, the last one `int`. -/
def fillTabs (t : Tables) (i : Nat) : Except Fault Tables := do
  let crvTab ← store t.crvTab i [(i - 128 : Int) * 104597]
  let cbuTab ← store t.cbuTab i [(i - 128 : Int) * 132201]
  let cguTab ← store t.cguTab i [(i - 128 : Int) * 25675]
  let cgvTab ← store t.cgvTab i [(i - 128 : Int) * 53279]
  let y ← checkInt (76309 * (i - 16))
  let tab76309 ← store t.tab76309 i [y]
  .ok { t with crvTab, cbuTab, cguTab, cgvTab, tab76309 }

/-- A turn of a loop over `clp`, which has come to `ind + i`. -/
def fillClp (ind : Nat) (value : Nat → UInt8) (clp : List UInt8) (i : Nat) :
    Except Fault (List UInt8) :=
  store clp (ind + i) [value i]

def initConvertTable (t : Tables) : Except Fault Tables := do
  let t ← runSteps fillTabs t (List.range 256)
  let clp ← runSteps (fillClp 0 fun _ => 0) t.clp (List.range 384)
  let clp ← runSteps (fillClp 384 fun i => UInt8.ofNat i) clp (List.range 256)
  let clp ← runSteps (fillClp 640 fun _ => 255) clp (List.range 384)
  .ok { t with clp }

/-- A pointer into a block. -/
structure Pointer where
  block : List UInt8
  off : Nat

namespace Pointer

def add (p : Pointer) (n : Nat) : Pointer := { p with off := p.off + n }

/-- `*p`. -/
def read (p : Pointer) : Except Fault UInt8 := load p.block p.off

end Pointer

/-- The running pointers and the output. -/
structure Walk where
  py1 : Pointer
  py2 : Pointer
  src1 : Pointer
  src2 : Pointer
  d1 : Nat
  d2 : Nat
  dst : List UInt8

/-- `clp[384+(x>>16)]`. -/
def Tables.clip (t : Tables) (x : Int) : Except Fault UInt8 := do
  let index ← checkInt ((384 : Int) + x >>> (16 : Nat))
  if index < 0 then .error .read else load t.clp index.toNat

/-- The three bytes of a pixel. -/
def Tables.putPixel (t : Tables) (dst : List UInt8) (d : Nat) (y c1 c2 c3 c4 : Int) :
    Except Fault (List UInt8) := do
  let red ← t.clip (← checkInt (y + c1))
  let dst ← store dst d [red]
  let green ← t.clip (← checkInt ((← checkInt (y - c2)) - c3))
  let dst ← store dst (d + 1) [green]
  let blue ← t.clip (← checkInt (y + c4))
  store dst (d + 2) [blue]

/-- One turn of the inner loop: two columns of two rows. -/
def Tables.turn (t : Tables) (w : Walk) : Except Fault Walk := do
  let u ← w.src1.read
  let v ← w.src2.read
  let c1 ← checkInt (← load t.crvTab v.toNat)
  let c2 ← checkInt (← load t.cguTab u.toNat)
  let c3 ← checkInt (← load t.cgvTab v.toNat)
  let c4 ← checkInt (← load t.cbuTab u.toNat)
  -- up-left
  let y1 ← checkInt (← load t.tab76309 (← w.py1.read).toNat)
  let dst ← t.putPixel w.dst w.d1 y1 c1 c2 c3 c4
  -- down-left
  let y2 ← checkInt (← load t.tab76309 (← w.py2.read).toNat)
  let dst ← t.putPixel dst w.d2 y2 c1 c2 c3 c4
  -- up-right
  let y1 ← checkInt (← load t.tab76309 (← (w.py1.add 1).read).toNat)
  let dst ← t.putPixel dst (w.d1 + 3) y1 c1 c2 c3 c4
  -- down-right
  let y2 ← checkInt (← load t.tab76309 (← (w.py2.add 1).read).toNat)
  let dst ← t.putPixel dst (w.d2 + 3) y2 c1 c2 c3 c4
  .ok { py1 := w.py1.add 2, py2 := w.py2.add 2, src1 := w.src1.add 1, src2 := w.src2.add 1
        d1 := w.d1 + 6, d2 := w.d2 + 6, dst }

/-- One turn of the outer loop. -/
def Tables.rows (t : Tables) (width : Nat) (w : Walk) : Except Fault Walk := do
  let w ← forBy 2 width t.turn w
  let skip ← checkInt (3 * width)
  .ok { w with
    d1 := w.d1 + skip.toNat
    d2 := w.d2 + skip.toNat
    py1 := w.py1.add width
    py2 := w.py2.add width }

/-- `ConvertYUV2RGB`: the output afterwards. -/
def Tables.convertYUV2RGB (t : Tables) (src0 src1 src2 : Pointer) (dst : List UInt8)
    (width height : Nat) : Except Fault (List UInt8) := do
  let skip ← checkInt (3 * width)
  let w ← forBy 2 height (t.rows width)
    { py1 := src0, py2 := src0.add width, src1, src2, d1 := 0, d2 := skip.toNat, dst }
  .ok w.dst

end LinuxCodeDemos.NailPrinter

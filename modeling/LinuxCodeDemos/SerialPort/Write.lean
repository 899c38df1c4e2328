/-
  LinuxCodeDemos.SerialPort.Write

  `WriteComPort` of `linux_serialport.c`.

  The loop asks `select` whether the port takes output and hands the rest of the data to
  `write`.  It ends when all is written or `select` gives 0.  A `select` of -1 counts as ready,
  and a `write` that gives 0 or -1 changes nothing, so the loop goes round again with the same
  arguments (`writeTurn_stalled`).
-/

import LinuxCodeDemos.Lib.While
import LinuxCodeDemos.SerialPort.Settings

namespace LinuxCodeDemos.SerialPort

open Lib

-- ============================================================================
-- The timeout
-- ============================================================================

/-- What ends the program before the loop. -/
inductive Trap where
  | fault (f : Fault)
  | divideByZero
  deriving DecidableEq, Repr

/-- `_BAUDRATE`. -/
def baudrateOf (bits : BitVec 32) : Int :=
  match bits.toNat with
  | 0o0 => 0
  | 0o1 => 50
  | 0o2 => 75
  | 0o3 => 110
  | 0o4 => 134
  | 0o5 => 150
  | 0o6 => 200
  | 0o7 => 300
  | 0o10 => 600
  | 0o11 => 1200
  | 0o13 => 2400
  | 0o15 => 9600
  | 0o16 => 19200
  | 0o17 => 38400
  | 0o10001 => 57600
  | 0o10002 => 115200
  | _ => 9600

/-- `GetBaudrate`; `cfgetospeed` gives the speed bits of `c_cflag`. -/
def getBaudrate (t : Termios) : Int := baudrateOf (t.c_cflag &&& cbaud)

/-- `TIMEOUT_SEC`. -/
def timeoutSec (buflen baud : Int) : Except Trap Int := do
  let bits ← (checkInt (buflen * 20)).mapError .fault
  if baud = 0 then .error .divideByZero
  else (checkInt (bits.tdiv baud + 2)).mapError .fault

-- ============================================================================
-- The loop
-- ============================================================================

/-- The system calls of one turn.  `write` gives `offer`, or the number of bytes it is asked
    to write where that is less. -/
structure Turn where
  select : Int
  offer : Int

/-- The arguments `data` and `datalength`. -/
structure Output where
  data : List UInt8
  datalength : Int
  datalength_le : datalength ≤ data.length

/-- The loop: the turns made, `total_len`, the bytes that `write` has taken, and whether the
    loop was left by `break`. -/
structure WriteLoop where
  turn : Nat
  totalLen : Int
  written : List UInt8
  flushed : Bool
  deriving DecidableEq, Repr

def WriteLoop.start : WriteLoop := { turn := 0, totalLen := 0, written := [], flushed := false }

/-- The loop is not over. -/
def WriteLoop.goesOn (out : Output) (s : WriteLoop) : Bool :=
  !s.flushed && s.totalLen < out.datalength

/-- One turn. -/
def writeTurn (out : Output) (turns : Nat → Turn) (s : WriteLoop) : WriteLoop :=
  let retval := (turns s.turn).select
  if retval ≠ 0 then
    let len := min (turns s.turn).offer (out.datalength - s.totalLen)
    if len > 0 then
      { s with
        turn := s.turn + 1
        totalLen := s.totalLen + len
        written := s.written ++ (out.data.drop s.totalLen.toNat).take len.toNat }
    else { s with turn := s.turn + 1 }
  else
    -- `tcflush` and `break`
    { s with turn := s.turn + 1, flushed := true }

/-- `WriteComPort`, with at most `fuel` tests of the loop; `none` means that it was still
    going.  The result is `total_len`. -/
def writeComPort (t : Termios) (out : Output) (turns : Nat → Turn) (fuel : Nat) :
    Except Trap (Option WriteLoop) := do
  let _ ← timeoutSec out.datalength (getBaudrate t)
  whileLoop (WriteLoop.goesOn out) (fun s => .ok (writeTurn out turns s)) fuel .start

-- ============================================================================
-- Progress
-- ============================================================================

/-- The states of the loop before and behind its turns. -/
inductive Reached (out : Output) (turns : Nat → Turn) : WriteLoop → Prop where
  | start : Reached out turns .start
  | turn {s : WriteLoop} (h : Reached out turns s) (hgo : s.goesOn out = true) :
      Reached out turns (writeTurn out turns s)

/-- Every turn writes something or is the last one, and the call returns with a count of the
    bytes at the front of the data that were written. -/
structure WritesOrStops (t : Termios) (out : Output) (turns : Nat → Turn) : Prop where
  progress : ∀ s, Reached out turns s → s.goesOn out = true →
    s.totalLen < (writeTurn out turns s).totalLen ∨
      (writeTurn out turns s).goesOn out = false
  returns : ∃ fuel s, writeComPort t out turns fuel = .ok (some s) ∧
    s.turn ≤ out.datalength.toNat + 1 ∧ (s.written.length : Int) = s.totalLen ∧
    s.written = out.data.take s.written.length

/-- What the first `k` calls of `write` take, if none is asked for less. -/
def offered (turns : Nat → Turn) : Nat → Int
  | 0 => 0
  | k + 1 => offered turns k + max (turns k).offer 0

/-- Until `select` gives 0 or all is taken, no `write` gives 0 or -1. -/
def NeverStalls (datalength : Int) (turns : Nat → Turn) : Prop :=
  ∀ k, (∀ j < k, (turns j).select ≠ 0) → offered turns k < datalength →
    (turns k).select = 0 ∨ 0 < (turns k).offer

/-- The timeout is computed: the speed is not `B0` and `datalength * 20` is an `int`. -/
def TimeoutFits (t : Termios) (datalength : Int) : Prop :=
  t.c_cflag &&& cbaud ≠ 0 ∧ -2 ^ 31 ≤ datalength * 20 ∧ datalength * 20 ≤ intMax

-- ============================================================================
-- One turn
-- ============================================================================

section Turns

variable {out : Output} {turns : Nat → Turn} {s : WriteLoop}

theorem goesOn_iff : s.goesOn out = true ↔ s.flushed = false ∧ s.totalLen < out.datalength := by
  rw [WriteLoop.goesOn, Bool.and_eq_true, Bool.not_eq_true', decide_eq_true_iff]

theorem writeTurn_flushed (h : (turns s.turn).select = 0) :
    writeTurn out turns s = { s with turn := s.turn + 1, flushed := true } := by
  rw [writeTurn]
  exact if_neg (not_not.mpr h)

/-- `write` gives 0 or -1: the same call is made again. -/
theorem writeTurn_stalled (h : (turns s.turn).select ≠ 0) (hoffer : (turns s.turn).offer ≤ 0) :
    writeTurn out turns s = { s with turn := s.turn + 1 } := by
  rw [writeTurn]
  simp only [if_pos h]
  exact if_neg (by omega)

theorem writeTurn_wrote (h : (turns s.turn).select ≠ 0) (hoffer : 0 < (turns s.turn).offer)
    (hgo : s.goesOn out = true) :
    ∃ len : Nat, 0 < len ∧ len ≤ (turns s.turn).offer ∧ s.totalLen + len ≤ out.datalength ∧
      (s.totalLen + len < out.datalength → (turns s.turn).offer = len) ∧
      writeTurn out turns s =
        { s with
          turn := s.turn + 1
          totalLen := s.totalLen + len
          written := s.written ++ (out.data.drop s.totalLen.toNat).take len } := by
  have hroom := (goesOn_iff.mp hgo).2
  obtain ⟨len, hlen⟩ :
      ∃ len : Nat, (len : Int) = min (turns s.turn).offer (out.datalength - s.totalLen) :=
    ⟨(min (turns s.turn).offer (out.datalength - s.totalLen)).toNat, by omega⟩
  refine ⟨len, by omega, by omega, by omega, by omega, ?_⟩
  rw [writeTurn]
  simp only [if_pos h, ← hlen]
  exact if_pos (by omega)

theorem turn_writeTurn (out : Output) (turns : Nat → Turn) (s : WriteLoop) :
    (writeTurn out turns s).turn = s.turn + 1 := by
  simp only [writeTurn]
  split
  · split
    · rfl
    · rfl
  · rfl

/-- What the loop has written so far. -/
structure Taken (out : Output) (s : WriteLoop) : Prop where
  nonneg : 0 ≤ s.totalLen
  le : s.totalLen ≤ max out.datalength 0
  written : s.written = out.data.take s.totalLen.toNat

/-- A turn takes the next bytes of the data, or none. -/
theorem Taken.turn (h : Taken out s) (hgo : s.goesOn out = true) :
    Taken out (writeTurn out turns s) := by
  by_cases hselect : (turns s.turn).select = 0
  · rw [writeTurn_flushed hselect]
    exact ⟨h.nonneg, h.le, h.written⟩
  · by_cases hoffer : 0 < (turns s.turn).offer
    · obtain ⟨len, hpos, -, hle, -, heq⟩ := writeTurn_wrote hselect hoffer hgo
      have hnonneg := h.nonneg
      rw [heq]
      refine ⟨?_, ?_, ?_⟩
      · show 0 ≤ s.totalLen + len
        omega
      · show s.totalLen + len ≤ max out.datalength 0
        omega
      · show s.written ++ _ = out.data.take (s.totalLen + len).toNat
        rw [h.written, show (s.totalLen + len).toNat = s.totalLen.toNat + len by omega,
          List.take_add]
    · rw [writeTurn_stalled hselect (by omega)]
      exact ⟨h.nonneg, h.le, h.written⟩

theorem Reached.taken (h : Reached out turns s) : Taken out s := by
  induction h with
  | start => exact ⟨Int.le_refl 0, Int.le_max_right .., rfl⟩
  | turn _ hgo ih => exact ih.turn hgo

theorem Taken.length (h : Taken out s) : (s.written.length : Int) = s.totalLen := by
  have hle := h.le
  have hnonneg := h.nonneg
  have hdata := out.datalength_le
  rw [h.written, List.length_take]
  omega

/-- Before the loop is over, `total_len` is the sum of what `write` gave. -/
theorem Reached.totalLen_eq (h : Reached out turns s) (hgo : s.goesOn out = true) :
    s.totalLen = offered turns s.turn ∧ ∀ j < s.turn, (turns j).select ≠ 0 := by
  induction h with
  | start => exact ⟨rfl, fun j hj => absurd hj (Nat.not_lt_zero j)⟩
  | @turn s h hgo' ih =>
      obtain ⟨hsum, hselects⟩ := ih hgo'
      have hselect : (turns s.turn).select ≠ 0 := by
        intro hzero
        rw [writeTurn_flushed hzero] at hgo
        cases hgo
      have hall : ∀ j < s.turn + 1, (turns j).select ≠ 0 := by
        intro j hj
        rcases Nat.lt_succ_iff_lt_or_eq.mp hj with hlt | rfl
        · exact hselects j hlt
        · exact hselect
      by_cases hoffer : 0 < (turns s.turn).offer
      · obtain ⟨len, -, -, -, hfull, heq⟩ := writeTurn_wrote hselect hoffer hgo'
        rw [heq] at hgo ⊢
        refine ⟨?_, hall⟩
        have hlen := hfull (goesOn_iff.mp hgo).2
        show s.totalLen + len = offered turns s.turn + max (turns s.turn).offer 0
        omega
      · rw [writeTurn_stalled hselect (by omega)]
        refine ⟨?_, hall⟩
        show s.totalLen = offered turns s.turn + max (turns s.turn).offer 0
        omega

theorem offered_le_succ (turns : Nat → Turn) (k : Nat) :
    offered turns k ≤ offered turns (k + 1) := by
  rw [offered]
  omega

/-- The loop comes to every turn before which there is room and `select` never gave 0. -/
theorem exists_reached {k : Nat} (hselects : ∀ j < k, (turns j).select ≠ 0)
    (hroom : offered turns k < out.datalength) :
    ∃ s, Reached out turns s ∧ s.goesOn out = true ∧ s.turn = k := by
  induction k with
  | zero => exact ⟨.start, .start, goesOn_iff.mpr ⟨rfl, hroom⟩, rfl⟩
  | succ k ih =>
      have hle := offered_le_succ turns k
      obtain ⟨s, hs, hgo, hturn⟩ := ih (fun j hj => hselects j (by omega)) (by omega)
      have hsum := (hs.totalLen_eq hgo).1
      have hselect : (turns s.turn).select ≠ 0 := by
        rw [hturn]
        exact hselects k (Nat.lt_succ_self k)
      refine ⟨writeTurn out turns s, hs.turn hgo, ?_, by rw [turn_writeTurn, hturn]⟩
      rw [hturn] at hsum
      rw [offered] at hroom
      by_cases hoffer : 0 < (turns s.turn).offer
      · obtain ⟨len, -, hle, -, -, heq⟩ := writeTurn_wrote hselect hoffer hgo
        rw [heq, goesOn_iff]
        refine ⟨(goesOn_iff.mp hgo).1, ?_⟩
        show s.totalLen + len < out.datalength
        rw [hturn] at hle
        omega
      · rw [writeTurn_stalled hselect (by omega)]
        exact hgo

/-- Every turn that is made writes something or is the last, if and only if no `write`
    stalls. -/
theorem progress_iff :
    (∀ s, Reached out turns s → s.goesOn out = true →
      s.totalLen < (writeTurn out turns s).totalLen ∨
        (writeTurn out turns s).goesOn out = false) ↔
      NeverStalls out.datalength turns := by
  refine ⟨?_, ?_⟩
  · intro h k hselects hroom
    obtain ⟨s, hs, hgo, rfl⟩ := exists_reached hselects hroom
    by_contra hstall
    obtain ⟨hselect, hoffer⟩ := not_or.mp hstall
    have hturn := h s hs hgo
    rw [writeTurn_stalled hselect (by omega)] at hturn
    rcases hturn with hmore | hend
    · exact absurd hmore (Int.lt_irrefl _)
    · exact absurd hgo (by rw [show s.goesOn out = false from hend]; decide)
  · intro h s hs hgo
    obtain ⟨hsum, hselects⟩ := hs.totalLen_eq hgo
    have hroom := (goesOn_iff.mp hgo).2
    by_cases hselect : (turns s.turn).select = 0
    · rw [writeTurn_flushed hselect]
      exact .inr rfl
    · have hoffer : 0 < (turns s.turn).offer :=
        (h s.turn hselects (by omega)).resolve_left hselect
      obtain ⟨len, hpos, -, -, -, heq⟩ := writeTurn_wrote hselect hoffer hgo
      rw [heq]
      refine .inl ?_
      show s.totalLen < s.totalLen + len
      omega

end Turns

-- ============================================================================
-- The call
-- ============================================================================

section Call

variable {t : Termios} {out : Output} {turns : Nat → Turn}

theorem baudrateOf_cases (bits : BitVec 32) :
    bits = 0 ∧ baudrateOf bits = 0 ∨ bits ≠ 0 ∧ 50 ≤ baudrateOf bits := by
  by_cases hzero : bits = 0
  · exact .inl ⟨hzero, by rw [hzero]; rfl⟩
  · refine .inr ⟨hzero, ?_⟩
    unfold baudrateOf
    split
    · next h => exact absurd (BitVec.eq_of_toNat_eq h) hzero
    all_goals decide

/-- A quotient by 50 or more is small enough for the two seconds that are added. -/
theorem checkInt_quotient {a b : Int} (ha : -2 ^ 31 ≤ a ∧ a ≤ intMax) (hb : 50 ≤ b) :
    checkInt (a.tdiv b + 2) = .ok (a.tdiv b + 2) := by
  have hquot : (a.tdiv b).natAbs ≤ a.natAbs / 50 := by
    rw [Int.natAbs_tdiv]
    exact Nat.div_le_div_left (by omega) (by decide)
  rw [intMax] at ha
  apply checkInt_of_le
  · omega
  · rw [intMax]
    omega

/-- The timeout is a number if and only if there is a speed to divide by and the product is an
    `int`. -/
theorem timeoutSec_ok_iff {datalength : Int} :
    (∃ sec, timeoutSec datalength (getBaudrate t) = .ok sec) ↔ TimeoutFits t datalength := by
  rw [timeoutSec, TimeoutFits]
  by_cases hrange : -2 ^ 31 ≤ datalength * 20 ∧ datalength * 20 ≤ intMax
  · have hbits : (checkInt (datalength * 20)).mapError Trap.fault = .ok (datalength * 20) := by
      rw [checkInt_of_le hrange.1 hrange.2]
      rfl
    rw [bind_of_ok hbits]
    rcases baudrateOf_cases (t.c_cflag &&& cbaud) with ⟨hzero, hbaud⟩ | ⟨hspeed, hbaud⟩
    · rw [getBaudrate, if_pos hbaud]
      refine iff_of_false ?_ (fun h => h.1 hzero)
      rintro ⟨sec, h⟩
      cases h
    · rw [getBaudrate, if_neg (by omega), checkInt_quotient hrange hbaud]
      exact iff_of_true ⟨_, rfl⟩ ⟨hspeed, hrange⟩
  · refine iff_of_false ?_ (fun h => hrange h.2)
    rintro ⟨sec, h⟩
    rw [checkInt, if_neg hrange] at h
    cases h

/-- The states of a loop without a stall: every turn but the last has written a byte. -/
structure LoopInv (out : Output) (turns : Nat → Turn) (s : WriteLoop) : Prop where
  reached : Reached out turns s
  turns_le : (s.turn : Int) ≤ s.totalLen + s.flushed.toNat

/-- The turns that a loop without a stall can still make. -/
def turnsLeft (out : Output) (s : WriteLoop) : Nat :=
  if s.flushed then 0 else (out.datalength - s.totalLen).toNat

theorem LoopInv.turn {s : WriteLoop} (h : LoopInv out turns s)
    (hnever : NeverStalls out.datalength turns) (hgo : s.goesOn out = true) :
    LoopInv out turns (writeTurn out turns s) ∧
      turnsLeft out (writeTurn out turns s) < turnsLeft out s := by
  obtain ⟨hflushed, hroom⟩ := goesOn_iff.mp hgo
  obtain ⟨hsum, hselects⟩ := h.reached.totalLen_eq hgo
  have hturns : (s.turn : Int) ≤ s.totalLen := by
    have hle := h.turns_le
    rw [hflushed] at hle
    simpa using hle
  have hleft : turnsLeft out s = (out.datalength - s.totalLen).toNat := by
    rw [turnsLeft, hflushed]
    rfl
  have hnext : Reached out turns (writeTurn out turns s) := h.reached.turn hgo
  by_cases hselect : (turns s.turn).select = 0
  · rw [writeTurn_flushed hselect] at hnext ⊢
    refine ⟨⟨hnext, ?_⟩, ?_⟩
    · show ((s.turn + 1 : Nat) : Int) ≤ s.totalLen + 1
      omega
    · rw [hleft]
      show 0 < _
      omega
  · have hoffer := (hnever s.turn hselects (by omega)).resolve_left hselect
    obtain ⟨len, hpos, -, -, -, heq⟩ := writeTurn_wrote hselect hoffer hgo
    rw [heq] at hnext ⊢
    refine ⟨⟨hnext, ?_⟩, ?_⟩
    · show ((s.turn + 1 : Nat) : Int) ≤ s.totalLen + len + s.flushed.toNat
      omega
    · rw [hleft, turnsLeft]
      simp only [hflushed]
      show (out.datalength - (s.totalLen + len)).toNat < _
      omega

/-- A loop without a stall ends, and has made one turn more at most than it has written
    bytes. -/
theorem writeLoop_ends (hnever : NeverStalls out.datalength turns) :
    ∃ fuel s, whileLoop (ε := Trap) (WriteLoop.goesOn out)
        (fun s => .ok (writeTurn out turns s)) fuel .start = .ok (some s) ∧
      Reached out turns s ∧ s.turn ≤ s.totalLen.toNat + 1 := by
  have hturn : ∀ s, LoopInv out turns s → s.goesOn out = true →
      ∃ s', (.ok (writeTurn out turns s) : Except Trap WriteLoop) = .ok s' ∧
        LoopInv out turns s' ∧ turnsLeft out s' < turnsLeft out s :=
    fun s hs hgo => ⟨_, rfl, hs.turn hnever hgo⟩
  have hstart : LoopInv out turns .start := ⟨.start, Int.le_refl 0⟩
  obtain ⟨s, hloop, hs, -⟩ := whileLoop_ends _ hturn hstart (Nat.lt_succ_self _)
  refine ⟨_, s, hloop, hs.reached, ?_⟩
  have hturns := hs.turns_le
  have hone := Bool.toNat_le s.flushed
  omega

/-- A port that is always ready and never takes all of the data keeps the call for ever. -/
theorem writeComPort_endless (htimeout : TimeoutFits t out.datalength)
    (hselect : ∀ k, (turns k).select ≠ 0) (hshort : ∀ k, offered turns k < out.datalength)
    (fuel : Nat) : writeComPort t out turns fuel = .ok none := by
  obtain ⟨sec, hsec⟩ := timeoutSec_ok_iff.mpr htimeout
  have hturn : ∀ s : WriteLoop, s.flushed = false ∧ s.totalLen ≤ offered turns s.turn →
      s.goesOn out = true ∧
        ∃ s', (.ok (writeTurn out turns s) : Except Trap WriteLoop) = .ok s' ∧
          s'.flushed = false ∧ s'.totalLen ≤ offered turns s'.turn := by
    rintro s ⟨hflushed, hle⟩
    have hroom := hshort s.turn
    have hmore := offered_le_succ turns s.turn
    have hgo : s.goesOn out = true := goesOn_iff.mpr ⟨hflushed, by omega⟩
    refine ⟨hgo, _, rfl, ?_⟩
    by_cases hoffer : 0 < (turns s.turn).offer
    · obtain ⟨len, -, hlen, -, -, heq⟩ := writeTurn_wrote (hselect s.turn) hoffer hgo
      rw [heq]
      refine ⟨hflushed, ?_⟩
      show s.totalLen + len ≤ offered turns s.turn + max (turns s.turn).offer 0
      omega
    · rw [writeTurn_stalled (hselect s.turn) (by omega)]
      exact ⟨hflushed, Int.le_trans hle hmore⟩
  rw [writeComPort, bind_of_ok hsec]
  exact whileLoop_endless hturn fuel ⟨rfl, Int.le_refl 0⟩

/-- Every turn of `WriteComPort` makes progress or is the last, and the call returns, exactly if
    the timeout is computed and no `write` gives 0 or -1 while the loop goes on. -/
theorem writesOrStops_iff (t : Termios) (out : Output) (turns : Nat → Turn) :
    WritesOrStops t out turns ↔
      TimeoutFits t out.datalength ∧ NeverStalls out.datalength turns := by
  refine ⟨?_, ?_⟩
  · rintro ⟨hprogress, fuel, s, hcall, -⟩
    obtain ⟨sec, hsec, -⟩ := exists_ok_of_bind hcall
    exact ⟨timeoutSec_ok_iff.mp ⟨sec, hsec⟩, progress_iff.mp hprogress⟩
  · rintro ⟨htimeout, hnever⟩
    obtain ⟨sec, hsec⟩ := timeoutSec_ok_iff.mpr htimeout
    obtain ⟨fuel, s, hloop, hs, hturns⟩ := writeLoop_ends hnever
    have hle := hs.taken.le
    have hlength := hs.taken.length
    refine ⟨progress_iff.mpr hnever, fuel, s, ?_, by omega, hlength, ?_⟩
    · rw [writeComPort, bind_of_ok hsec, hloop]
    · rw [show s.written.length = s.totalLen.toNat by omega]
      exact hs.taken.written

/-- One byte to write at 9600 baud. -/
def oneByte : Output := { data := [65], datalength := 1, datalength_le := by decide }

/-- A port that is always ready and never takes the byte: the call does not return. -/
theorem writeComPort_failing :
    (∀ fuel, writeComPort (setPortAttr 9600 8 "1" 'N') oneByte (fun _ => ⟨1, -1⟩) fuel
        = .ok none) ∧
      ¬ WritesOrStops (setPortAttr 9600 8 "1" 'N') oneByte (fun _ => ⟨1, -1⟩) := by
  have hnone : ∀ k, offered (fun _ => ⟨1, -1⟩) k = 0 := by
    intro k
    induction k with
    | zero => rfl
    | succ k ih =>
        rw [offered, ih]
        rfl
  have hendless := @writeComPort_endless (setPortAttr 9600 8 "1" 'N') oneByte (fun _ => ⟨1, -1⟩)
    ⟨by decide, by decide, by decide⟩ (fun _ => by decide) (fun k => by rw [hnone]; decide)
  refine ⟨hendless, fun h => ?_⟩
  obtain ⟨fuel, s, hcall, -⟩ := h.returns
  rw [hendless fuel] at hcall
  cases hcall

end Call

end LinuxCodeDemos.SerialPort

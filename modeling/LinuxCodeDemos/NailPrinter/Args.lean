/-
  LinuxCodeDemos.NailPrinter.Args

  `get_args` of `NailPrinterServer/MainServer.c`: the fields of a command, which commas separate.

  - `argv` is a table of rows.  A store is checked against the row that is being filled, so a field
    that runs into the next row is a fault.
  - Both loops go up to `bufsize` inclusive, so the code looks at `bufsize + 1` bytes.
  - `end = offset - 1` is `-1` in front of the first byte; `i <= end` is `i < offset`.

  The scan is a fold of `putField` over the fields of the text (`getArgs_eq`), so what is stored
  (`getArgs_joined`) and whether it stays in the table (`getArgs_ok_iff`) are facts about the list
  that `List.splitOn` gives.
-/

import Mathlib.Data.List.GetD
import LinuxCodeDemos.Lib.Memory
import LinuxCodeDemos.Lib.Run

namespace LinuxCodeDemos.NailPrinter

open Lib

/-- `ARGC_MAX`. -/
def argcMax : Nat := 8

/-- The bytes of a row of `argv`. -/
def argSize : Nat := 64

/-- `','`. -/
def comma : UInt8 := 44

def zeroRow : List UInt8 := List.replicate argSize 0

theorem length_zeroRow : zeroRow.length = argSize := List.length_replicate

/-- `tArg`: `argv` has `ARGC_MAX` rows of 64 bytes. -/
structure Arg where
  argc : Nat
  argv : List (List UInt8)
  rows : argv.length = argcMax
  columns : ∀ row ∈ argv, row.length = argSize

namespace Arg

/-- After the `memset`. -/
def zero : Arg where
  argc := 0
  argv := List.replicate argcMax zeroRow
  rows := List.length_replicate
  columns := fun _ h => List.eq_of_mem_replicate h ▸ length_zeroRow

/-- `arg->argv[arg->argc]`. -/
def row (arg : Arg) : List UInt8 := arg.argv.getD arg.argc zeroRow

theorem length_row (arg : Arg) : arg.row.length = argSize := by
  rw [row, List.getD_eq_getElem?_getD]
  cases h : arg.argv[arg.argc]? with
  | none => exact length_zeroRow
  | some row => exact arg.columns row (List.mem_of_getElem? h)

/-- Another content of that row. -/
def setRow (arg : Arg) (row : List UInt8) (h : row.length = argSize) : Arg where
  argc := arg.argc
  argv := arg.argv.set arg.argc row
  rows := List.length_set.trans arg.rows
  columns := fun other hmem => (List.mem_or_eq_of_mem_set hmem).elim (arg.columns other) (· ▸ h)

/-- `arg->argv[arg->argc][i] = b`. -/
def put (arg : Arg) (i : Nat) (b : UInt8) : Except Fault Arg :=
  if arg.argc < argcMax ∧ i < argSize then
    .ok (arg.setRow (arg.row.set i b) (List.length_set.trans arg.length_row))
  else .error .write

end Arg

/-- `for (i = start; i < start + n; i++) arg->argv[arg->argc][i-start] = buf[i]`, and `argc++`. -/
def copyField (buf : List UInt8) (arg : Arg) (start n : Nat) : Except Fault Arg := do
  let arg ← runSteps (fun arg i => do arg.put i (← load buf (start + i))) arg (List.range n)
  .ok { arg with argc := arg.argc + 1 }

/-- The locals that one turn of the `while` loop hands to the next. -/
structure Scan where
  start : Nat
  arg : Arg

/-- One turn of the `while` loop. -/
def scanByte (buf : List UInt8) (s : Scan) (offset : Nat) : Except Fault Scan := do
  let b ← load buf offset
  if b = comma then
    let arg ← copyField buf s.arg s.start (offset - s.start)
    .ok { start := offset + 1, arg }
  else .ok s

/-- Behind the `while` loop. -/
def copyTail (buf : List UInt8) (bufsize : Nat) (s : Scan) : Except Fault Arg :=
  copyField buf s.arg s.start (bufsize + 1 - s.start)

def getArgs (buf : List UInt8) (bufsize : Nat) : Except Fault Arg := do
  let s ← runSteps (scanByte buf) { start := 0, arg := .zero } (List.range (bufsize + 1))
  copyTail buf bufsize s

-- ============================================================================
-- One field
-- ============================================================================

/-- A field fits the row of number `row`, or nothing of it is stored. -/
def FitsRow (row : Nat) (field : List UInt8) : Prop :=
  field = [] ∨ row < argcMax ∧ field.length ≤ argSize

instance (row : Nat) (field : List UInt8) : Decidable (FitsRow row field) :=
  inferInstanceAs (Decidable (_ ∨ _))

namespace Arg

variable {arg : Arg} {field : List UInt8}

theorem length_splice_row (h : FitsRow arg.argc field) :
    (splice arg.row 0 field).length = argSize := by
  rcases h with rfl | ⟨-, hle⟩
  · rw [splice_nil, length_row]
  · rw [splice_length (by rw [length_row, Nat.zero_add]; exact hle), length_row]

/-- What becomes of the table when a field is stored. -/
def putField (arg : Arg) (field : List UInt8) : Except Fault Arg :=
  if h : FitsRow arg.argc field then
    .ok { arg.setRow (splice arg.row 0 field) (length_splice_row h) with argc := arg.argc + 1 }
  else .error .write

theorem setRow_row (h : arg.row.length = argSize) : arg.setRow arg.row h = arg := by
  have hargv : arg.argv.set arg.argc arg.row = arg.argv := by
    apply List.ext_getElem?
    intro i
    rw [List.getElem?_set]
    split
    · next heq =>
      subst heq
      split
      · next hlt => rw [row, List.getD_eq_getElem _ _ hlt, List.getElem?_eq_getElem hlt]
      · next hge => rw [List.getElem?_eq_none (Nat.not_lt.mp hge)]
    · rfl
  cases arg
  simp only [setRow]
  congr

theorem row_setRow {row : List UInt8} (h : row.length = argSize) (hargc : arg.argc < argcMax) :
    (arg.setRow row h).row = row := by
  have hlt : arg.argc < arg.argv.length := by
    rw [arg.rows]
    exact hargc
  show (arg.argv.set arg.argc row).getD arg.argc zeroRow = row
  rw [List.getD_eq_getElem?_getD, List.getElem?_set_self hlt]
  rfl

theorem setRow_setRow {row row' : List UInt8} (h : row.length = argSize)
    (h' : row'.length = argSize) : (arg.setRow row h).setRow row' h' = arg.setRow row' h' := by
  simp only [setRow, List.set_set]

/-- One more byte of a field. -/
theorem put_setRow {b : UInt8} (hargc : arg.argc < argcMax) (hlt : field.length < argSize)
    (h : (splice arg.row 0 field).length = argSize) :
    ∃ h', (arg.setRow (splice arg.row 0 field) h).put field.length b
      = .ok (arg.setRow (splice arg.row 0 (field ++ [b])) h') := by
  have hset : (splice arg.row 0 field).set field.length b = splice arg.row 0 (field ++ [b]) := by
    have hstep := @splice_append _ arg.row field [b] 0 (by
      rw [length_row, Nat.zero_add, List.length_append]
      exact hlt)
    rw [← hstep, Nat.zero_add, ← Except.ok.inj ((store_of_le (by rw [h]; exact hlt)).symm.trans
      (store_single (by rw [h]; exact hlt) b))]
  refine ⟨?_, ?_⟩
  · rw [← hset, List.length_set, h]
  · rw [put, if_pos ⟨hargc, hlt⟩, setRow_setRow]
    congr 2
    rw [row_setRow h hargc, hset]

theorem argc_put {arg' : Arg} {i : Nat} {b : UInt8} (h : arg.put i b = .ok arg') :
    arg'.argc = arg.argc := by
  rw [put] at h
  split at h
  · cases h
    rfl
  · cases h

end Arg

section Fields

variable {buf : List UInt8} {arg : Arg} {start n : Nat}

/-- A turn of the copying loop. -/
theorem copyTurn_eq (hin : start + n ≤ buf.length) {i : Nat} (hi : i < n) :
    (do arg.put i (← load buf (start + i)) : Except Fault Arg)
      = arg.put i (((buf.drop start).take n).getD i 0) := by
  have hlt : start + i < buf.length := by omega
  rw [load_of_lt hlt, List.getD_eq_getElem?_getD, List.getElem?_take_of_lt hi, List.getElem?_drop,
    List.getElem?_eq_getElem hlt]
  rfl

/-- A field that fits is copied. -/
theorem copyField_of_fits (hin : start + n ≤ buf.length) (hargc : arg.argc < argcMax)
    (hn : n ≤ argSize) :
    ∃ h, runSteps (fun arg i => do Arg.put arg i (← load buf (start + i))) arg (List.range n)
      = .ok (arg.setRow (splice arg.row 0 ((buf.drop start).take n)) h) := by
  have hlen : ((buf.drop start).take n).length = n := by
    rw [List.length_take, List.length_drop]
    omega
  have hturn : ∀ i a, i < n →
      (∃ h, a = arg.setRow (splice arg.row 0 (((buf.drop start).take n).take i)) h) →
      ∃ a', (do Arg.put a i (← load buf (start + i)) : Except Fault Arg) = .ok a' ∧
        ∃ h, a' = arg.setRow (splice arg.row 0 (((buf.drop start).take n).take (i + 1))) h := by
    rintro i a hi ⟨h, rfl⟩
    have htake : (((buf.drop start).take n).take i).length = i := by
      rw [List.length_take, hlen]
      omega
    obtain ⟨h', hput⟩ := @Arg.put_setRow arg _ (((buf.drop start).take n).getD i 0) hargc
      (show (((buf.drop start).take n).take i).length < argSize by omega) h
    rw [htake] at hput
    have hnext : ((buf.drop start).take n).take i ++ [((buf.drop start).take n).getD i 0]
        = ((buf.drop start).take n).take (i + 1) := by
      rw [List.getD_eq_getElem _ _ (by omega), List.take_append_getElem]
    refine ⟨_, (copyTurn_eq hin hi).trans hput, ?_⟩
    rw [← hnext]
    exact ⟨h', rfl⟩
  have hstart : ∃ h, arg = arg.setRow (splice arg.row 0 (((buf.drop start).take n).take 0)) h := by
    rw [List.take_zero, splice_nil]
    exact ⟨arg.length_row, (Arg.setRow_row _).symm⟩
  obtain ⟨arg', hrun, hcopied⟩ := runSteps_range n hturn hstart
  rw [List.take_of_length_le (show ((buf.drop start).take n).length ≤ n by omega)] at hcopied
  obtain ⟨h, rfl⟩ := hcopied
  exact ⟨h, hrun⟩

/-- One that does not fit is stored to its first byte outside the row. -/
theorem copyField_of_not_fits (hin : start + n ≤ buf.length) (hpos : 0 < n)
    (hnot : ¬ (arg.argc < argcMax ∧ n ≤ argSize)) :
    runSteps (fun arg i => do Arg.put arg i (← load buf (start + i))) arg (List.range n)
      = .error .write := by
  have hturn : ∀ (a : Arg) (i : Nat), a.argc = arg.argc → i < n →
      Ends (fun a => a.argc = arg.argc) (fun e => e = Fault.write)
        (do Arg.put a i (← load buf (start + i))) := by
    intro a i ha hi
    rw [copyTurn_eq hin hi]
    cases hput : a.put i (((buf.drop start).take n).getD i 0) with
    | ok a' => exact (Arg.argc_put hput).trans ha
    | error e =>
        rw [Arg.put] at hput
        split at hput
        · cases hput
        · exact (Except.error.inj hput).symm
  have hends := runSteps_ends hturn rfl
    (alongRun_of_forall (fun i hi _ => List.mem_range.mp hi) arg)
  -- the first byte outside: the first of all in a row that is not there, else the 65th
  obtain ⟨j, hj, hout⟩ : ∃ j, j < n ∧ ¬ (arg.argc < argcMax ∧ j < argSize) := by
    rcases Nat.lt_or_ge arg.argc argcMax with hlt | hge
    · exact ⟨argSize, by omega, by omega⟩
    · exact ⟨0, hpos, by omega⟩
  have hkeep : ∀ (a : Arg) (i : Nat) (a' : Arg), a.argc = arg.argc →
      (do Arg.put a i (← load buf (start + i)) : Except Fault Arg) = .ok a' →
        a'.argc = arg.argc := by
    intro a i a' ha hstep
    cases hload : load buf (start + i) with
    | error e =>
        rw [hload] at hstep
        cases hstep
    | ok b =>
        rw [hload] at hstep
        exact (Arg.argc_put hstep).trans ha
  have hstop : ∀ a : Arg, a.argc = arg.argc →
      ∃ e, (do Arg.put a j (← load buf (start + j)) : Except Fault Arg) = .error e := by
    intro a ha
    rw [copyTurn_eq hin hj, Arg.put, if_neg (by rw [ha]; exact hout)]
    exact ⟨_, rfl⟩
  obtain ⟨e, he⟩ := runSteps_stops hkeep hstop (List.mem_range.mpr hj) rfl
  rw [he, hends.of_error he]

/-- The copying loop stores a field. -/
theorem copyField_eq (hin : start + n ≤ buf.length) :
    copyField buf arg start n = arg.putField ((buf.drop start).take n) := by
  have hlen : ((buf.drop start).take n).length = n := by
    rw [List.length_take, List.length_drop]
    omega
  rw [copyField, Arg.putField]
  rcases Nat.eq_zero_or_pos n with rfl | hpos
  · have hnil : FitsRow arg.argc ((buf.drop start).take 0) := .inl (List.take_zero ..)
    rw [dif_pos hnil]
    simp only [List.take_zero, splice_nil, Arg.setRow_row]
    rfl
  by_cases hfits : arg.argc < argcMax ∧ n ≤ argSize
  · obtain ⟨h, hrun⟩ := copyField_of_fits hin hfits.1 hfits.2
    rw [hrun, dif_pos (.inr ⟨hfits.1, hlen.le.trans hfits.2⟩)]
    rfl
  · have hnot : ¬ FitsRow arg.argc ((buf.drop start).take n) := by
      rintro (hnil | hrow)
      · rw [hnil] at hlen
        exact absurd hlen (by rw [List.length_nil]; omega)
      · rw [hlen] at hrow
        exact hfits hrow
    rw [copyField_of_not_fits hin hpos hfits, dif_neg hnot]
    rfl

end Fields

-- ============================================================================
-- All fields
-- ============================================================================

/-- The bytes from `start` on that the scan looks at. -/
def window (buf : List UInt8) (bufsize start : Nat) : List UInt8 :=
  (buf.drop start).take (bufsize + 1 - start)

section Scans

variable {buf : List UInt8} {bufsize : Nat}

/-- The window at a byte that the scan comes to. -/
theorem window_split {start offset : Nat} (hstart : start ≤ offset) (hoffset : offset ≤ bufsize)
    {b : UInt8} (hb : buf[offset]? = some b) :
    window buf bufsize start
      = (buf.drop start).take (offset - start) ++ b :: window buf bufsize (offset + 1) := by
  rw [window, show bufsize + 1 - start = (offset - start) + (bufsize + 1 - offset) by omega,
    List.take_add, List.drop_drop, show start + (offset - start) = offset by omega,
    drop_of_getElem? hb, show bufsize + 1 - offset = (bufsize + 1 - (offset + 1)) + 1 by omega,
    List.take_succ_cons]
  rfl

theorem scanByte_comma {s : Scan} {offset : Nat} (hstart : s.start ≤ offset)
    (hb : buf[offset]? = some comma) :
    scanByte buf s offset
      = (s.arg.putField ((buf.drop s.start).take (offset - s.start))).map
          fun arg => { start := offset + 1, arg } := by
  obtain ⟨hlt, -⟩ := List.getElem?_eq_some_iff.mp hb
  rw [scanByte, load_eq_ok hb, ← copyField_eq (by omega)]
  show (copyField buf s.arg s.start (offset - s.start) >>= _) = _
  cases copyField buf s.arg s.start (offset - s.start) with
  | error e => rfl
  | ok arg => rfl

theorem scanByte_other {s : Scan} {offset : Nat} {b : UInt8} (hb : buf[offset]? = some b)
    (hne : b ≠ comma) : scanByte buf s offset = .ok s := by
  rw [scanByte, load_eq_ok hb]
  exact if_neg hne

/-- The rest of the scan stores the rest of the fields. -/
theorem scan_eq (hin : bufsize < buf.length) (n : Nat) :
    ∀ {offset : Nat} {s : Scan}, s.start ≤ offset → offset + n = bufsize + 1 →
      comma ∉ (buf.drop s.start).take (offset - s.start) →
      (runSteps (scanByte buf) s (List.range' offset n) >>= copyTail buf bufsize)
        = runSteps Arg.putField s.arg ((window buf bufsize s.start).splitOn comma) := by
  induction n with
  | zero =>
      intro offset s hstart hend hfree
      obtain rfl : offset = bufsize + 1 := hend
      rw [window, List.splitOn_eq_singleton hfree, runSteps]
      show copyTail buf bufsize s = _
      rw [copyTail, copyField_eq (by omega)]
      cases s.arg.putField ((buf.drop s.start).take (bufsize + 1 - s.start)) with
      | error e => rfl
      | ok arg' => rfl
  | succ n ih =>
      intro offset s hstart hend hfree
      have hlt : offset < buf.length := by omega
      have hget := List.getElem?_eq_getElem hlt
      rw [List.range'_succ, runSteps]
      by_cases hcomma : buf[offset] = comma
      · rw [hcomma] at hget
        rw [scanByte_comma hstart hget, window_split hstart (by omega) hget,
          List.splitOn_append_cons_self_of_not_mem hfree, runSteps]
        cases s.arg.putField ((buf.drop s.start).take (offset - s.start)) with
        | error e => rfl
        | ok arg =>
            have hnil : comma ∉ (buf.drop (offset + 1)).take (offset + 1 - (offset + 1)) := by
              rw [Nat.sub_self, List.take_zero]
              exact List.not_mem_nil
            exact @ih (offset + 1) { start := offset + 1, arg } (Nat.le_refl _) (by omega) hnil
      · rw [scanByte_other hget hcomma]
        refine ih (Nat.le_succ_of_le hstart) (by omega) ?_
        have hgrow : (buf.drop s.start).take (offset + 1 - s.start)
            = (buf.drop s.start).take (offset - s.start) ++ [buf[offset]] := by
          rw [show offset + 1 - s.start = (offset - s.start) + 1 by omega, List.take_add_one,
            List.getElem?_drop, show s.start + (offset - s.start) = offset by omega, hget]
          rfl
        rw [hgrow]
        intro hmem
        rcases List.mem_append.mp hmem with hold | hnew
        · exact hfree hold
        · exact hcomma (List.mem_singleton.mp hnew).symm

/-- `get_args` stores the fields of the first `bufsize + 1` bytes one after the other. -/
theorem getArgs_eq (hin : bufsize < buf.length) :
    getArgs buf bufsize
      = runSteps Arg.putField .zero ((buf.take (bufsize + 1)).splitOn comma) := by
  have hnil : comma ∉ (buf.drop 0).take (0 - 0) := by
    rw [Nat.sub_self, List.take_zero]
    exact List.not_mem_nil
  have hscan := @scan_eq buf bufsize hin (bufsize + 1) 0 { start := 0, arg := .zero } (Nat.le_refl _)
    (Nat.zero_add _) hnil
  rw [← List.range_eq_range'] at hscan
  exact hscan

end Scans

-- ============================================================================
-- Bounds
-- ============================================================================

/-- Every field fits its row. -/
def FieldsFit (fields : List (List UInt8)) : Prop :=
  ∀ row field, fields[row]? = some field → FitsRow row field

theorem Arg.argc_putField {arg arg' : Arg} {field : List UInt8} (h : arg.putField field = .ok arg') :
    arg'.argc = arg.argc + 1 := by
  rw [putField] at h
  split at h
  · cases h
    rfl
  · cases h

/-- A run over fields comes to its end exactly if each of them fits its row. -/
theorem putFields_ok_iff (fields : List (List UInt8)) (arg : Arg) :
    (∃ arg', runSteps Arg.putField arg fields = .ok arg') ↔
      ∀ i field, fields[i]? = some field → FitsRow (arg.argc + i) field := by
  induction fields generalizing arg with
  | nil =>
      refine iff_of_true ⟨arg, rfl⟩ fun i field h => ?_
      cases h
  | cons field fields ih =>
      rw [runSteps]
      by_cases hfits : FitsRow arg.argc field
      · cases hput : arg.putField field with
        | error e =>
            rw [Arg.putField, dif_pos hfits] at hput
            cases hput
        | ok arg' =>
            have hargc := Arg.argc_putField hput
            refine (ih arg').trans ⟨fun h i f hf => ?_, fun h i f hf => ?_⟩
            · cases i with
              | zero =>
                  cases hf
                  exact hfits
              | succ i =>
                  have hrow := h i f hf
                  rwa [hargc, Nat.add_assoc, Nat.add_comm 1] at hrow
            · have hrow := h (i + 1) f hf
              rwa [hargc, Nat.add_assoc, Nat.add_comm 1]
      · refine iff_of_false ?_ fun h => hfits (h 0 field rfl)
        rintro ⟨arg', hrun⟩
        rw [Arg.putField, dif_neg hfits] at hrun
        cases hrun

theorem getArgs_ok_iff {buf : List UInt8} {bufsize : Nat} (hin : bufsize < buf.length) :
    (∃ arg, getArgs buf bufsize = .ok arg) ↔
      FieldsFit ((buf.take (bufsize + 1)).splitOn comma) := by
  rw [getArgs_eq hin, putFields_ok_iff]
  simp only [FieldsFit, Arg.zero, Nat.zero_add]

/-- The receive buffer of `do_connect_thread` after a `read` into it. -/
def readCommand (buf received : List UInt8) : List UInt8 := splice buf 0 received

/-- The call `get_args(buf, 512, &rArgs)` looks at one byte more than was asked for, and at the
    bytes that earlier commands have left. -/
theorem getArgs_command_ok_iff {buf received : List UInt8} (hbuf : buf.length = 1024)
    (hpos : 1 ≤ received.length) (hle : received.length ≤ 512) :
    (∃ arg, getArgs (readCommand buf received) 512 = .ok arg) ↔
      FieldsFit (((readCommand buf received).take 513).splitOn comma) := by
  apply getArgs_ok_iff
  rw [readCommand, splice_length (by omega), hbuf]
  omega

/-- The command `3,1,100`, read into a buffer of zeros. -/
def uploadCommand : List UInt8 := [51, 44, 49, 44, 49, 48, 48]

theorem splitOn_uploadCommand (n : Nat) :
    (uploadCommand ++ List.replicate n 0).splitOn comma
      = [[51], [49], [49, 48, 48] ++ List.replicate n 0] := by
  have hjoin : uploadCommand ++ List.replicate n 0
      = [comma].intercalate [[51], [49], [49, 48, 48] ++ List.replicate n 0] := by
    simp only [List.intercalate_cons_cons, List.intercalate_singleton]
    rfl
  rw [hjoin]
  apply List.splitOn_intercalate
  · intro field hfield hmem
    simp only [List.mem_cons, List.not_mem_nil, or_false] at hfield
    rcases hfield with rfl | rfl | rfl
    · exact absurd hmem (by decide)
    · exact absurd hmem (by decide)
    · rcases List.mem_append.mp hmem with hhead | hzero
      · exact absurd hhead (by decide)
      · exact absurd (List.eq_of_mem_replicate hzero) (by decide)
  · exact List.cons_ne_nil _ _

/-- The rest of the buffer goes to the third row, which has no room for it. -/
theorem getArgs_uploadCommand :
    ¬ ∃ arg, getArgs (readCommand (List.replicate 1024 0) uploadCommand) 512 = .ok arg := by
  have hbuf : readCommand (List.replicate 1024 0) uploadCommand
      = uploadCommand ++ List.replicate 1017 0 := by
    rw [readCommand, splice, List.take_zero, List.nil_append, List.drop_replicate]
    rfl
  have hwindow : (uploadCommand ++ List.replicate 1017 (0 : UInt8)).take 513
      = uploadCommand ++ List.replicate 506 0 := by
    rw [List.take_append, List.take_replicate]
    rfl
  have hlen : (uploadCommand ++ List.replicate 1017 (0 : UInt8)).length = 1024 := by
    rw [List.length_append, List.length_replicate]
    rfl
  rw [hbuf, getArgs_ok_iff (by rw [hlen]; omega), hwindow, splitOn_uploadCommand]
  intro hfit
  rcases hfit 2 _ rfl with hnil | ⟨-, hle⟩
  · exact absurd hnil (List.cons_ne_nil _ _)
  · rw [List.length_append, List.length_replicate] at hle
    exact absurd hle (by decide)

-- ============================================================================
-- Contents
-- ============================================================================

/-- A row that holds a field. -/
def padded (field : List UInt8) : List UInt8 :=
  field ++ List.replicate (argSize - field.length) 0

/-- The table that holds some fields. -/
def table (fields : List (List UInt8)) : List (List UInt8) :=
  fields.map padded ++ List.replicate (argcMax - fields.length) zeroRow

theorem padded_concat_zero {field : List UInt8} (h : field.length < argSize) :
    padded (field ++ [0]) = padded field := by
  rw [padded, padded, List.length_append, List.append_assoc]
  congr 1
  rw [show argSize - field.length = (argSize - (field.length + 1)) + 1 by omega,
    List.replicate_succ]
  rfl

theorem splice_zeroRow {field : List UInt8} : splice zeroRow 0 field = padded field := by
  rw [splice, List.take_zero, List.nil_append, zeroRow, List.drop_replicate, padded, Nat.zero_add]

section Contents

variable {stored : List (List UInt8)} {arg : Arg}

/-- The next row is still zero. -/
theorem row_of_table (hargc : arg.argc = stored.length) (hargv : arg.argv = table stored) :
    arg.row = zeroRow := by
  rw [Arg.row, hargc, hargv, List.getD_eq_getElem?_getD, table,
    List.getElem?_append_right (by rw [List.length_map]), List.length_map, Nat.sub_self,
    List.getElem?_replicate]
  split
  · rfl
  · rfl

theorem putField_table {field : List UInt8} (hargc : arg.argc = stored.length)
    (hargv : arg.argv = table stored) (hcount : stored.length < argcMax)
    (hfield : field.length ≤ argSize) :
    ∃ arg', arg.putField field = .ok arg' ∧ arg'.argc = (stored ++ [field]).length ∧
      arg'.argv = table (stored ++ [field]) := by
  refine ⟨_, dif_pos (.inr ⟨hargc ▸ hcount, hfield⟩), ?_, ?_⟩
  · show arg.argc + 1 = _
    rw [hargc, List.length_append]
    rfl
  · show arg.argv.set arg.argc (splice arg.row 0 field) = _
    rw [row_of_table hargc hargv, splice_zeroRow, hargc, hargv, table, table,
      List.set_append_right _ _ (by rw [List.length_map]), List.length_map, Nat.sub_self,
      List.map_append, List.append_assoc, List.length_append,
      show argcMax - stored.length = (argcMax - (stored.length + 1)) + 1 by omega,
      List.replicate_succ]
    rfl

theorem putFields_table {fields : List (List UInt8)} (hargc : arg.argc = stored.length)
    (hargv : arg.argv = table stored) (hcount : (stored ++ fields).length ≤ argcMax)
    (hfields : ∀ field ∈ fields, field.length ≤ argSize) :
    ∃ arg', runSteps Arg.putField arg fields = .ok arg' ∧
      arg'.argc = (stored ++ fields).length ∧ arg'.argv = table (stored ++ fields) := by
  induction fields generalizing stored arg with
  | nil =>
      rw [List.append_nil]
      exact ⟨arg, rfl, hargc, hargv⟩
  | cons field fields ih =>
      obtain ⟨hfield, hrest⟩ := List.forall_mem_cons.mp hfields
      rw [List.length_append, List.length_cons] at hcount
      obtain ⟨arg', hput, hargc', hargv'⟩ := putField_table hargc hargv (by omega) hfield
      rw [runSteps_cons_ok hput, List.append_cons]
      refine ih hargc' hargv' ?_ hrest
      rw [List.length_append, List.length_append]
      exact Nat.le_trans (by simp only [List.length_cons, List.length_nil]; omega) hcount

end Contents

/-- A text and the zero behind it have the fields of the text, with the zero in the last one. -/
theorem splitOn_joined {init : List (List UInt8)} {last : List UInt8}
    (hfields : ∀ field ∈ init ++ [last], comma ∉ field) :
    ([comma].intercalate (init ++ [last]) ++ [0]).splitOn comma = init ++ [last ++ [0]] := by
  have hjoin : [comma].intercalate (init ++ [last]) ++ [0]
      = [comma].intercalate (init ++ [last ++ [0]]) := by
    induction init with
    | nil => rw [List.nil_append, List.nil_append, List.intercalate_singleton,
        List.intercalate_singleton]
    | cons field init ih =>
        have hne : ∀ f : List UInt8, init ++ [f] ≠ [] := by
          intro f
          exact List.append_ne_nil_of_right_ne_nil _ (List.cons_ne_nil _ _)
        rw [List.cons_append, List.cons_append, List.intercalate_cons_of_ne_nil (hne _),
          List.intercalate_cons_of_ne_nil (hne _), List.append_assoc,
          ih fun f hf => hfields f (List.mem_cons_of_mem _ hf)]
  rw [hjoin]
  apply List.splitOn_intercalate
  · intro field hfield
    rcases List.mem_append.mp hfield with hinit | hlast
    · exact hfields field (List.mem_append_left _ hinit)
    · rw [List.mem_singleton.mp hlast]
      intro hmem
      rcases List.mem_append.mp hmem with hold | hzero
      · exact hfields last (List.mem_append_right _ (List.mem_singleton.mpr rfl)) hold
      · exact absurd (List.mem_singleton.mp hzero) (by decide)
  · exact List.append_ne_nil_of_right_ne_nil _ (List.cons_ne_nil _ _)

/-- `get_args` takes a text apart that commas join: the table holds its fields. -/
theorem getArgs_joined {fields : List (List UInt8)} (hne : fields ≠ [])
    (hcount : fields.length ≤ argcMax)
    (hfields : ∀ field ∈ fields, comma ∉ field ∧ field.length ≤ 63) (rest : List UInt8) :
    ∃ arg, getArgs ([comma].intercalate fields ++ 0 :: rest) ([comma].intercalate fields).length
        = .ok arg ∧
      arg.argc = fields.length ∧ arg.argv = table fields := by
  obtain ⟨init, last, rfl⟩ : ∃ init last, fields = init ++ [last] :=
    ⟨fields.dropLast, fields.getLast hne, (List.dropLast_append_getLast hne).symm⟩
  have hwindow : ([comma].intercalate (init ++ [last]) ++ 0 :: rest).take
      (([comma].intercalate (init ++ [last])).length + 1)
        = [comma].intercalate (init ++ [last]) ++ [0] := by
    rw [List.take_append, List.take_of_length_le (by omega), Nat.add_sub_cancel_left]
    rfl
  have hlen : (init ++ [last ++ [0]]).length = (init ++ [last]).length := by
    rw [List.length_append, List.length_append]
    rfl
  have hlast := (hfields last (List.mem_append_right _ (List.mem_singleton.mpr rfl))).2
  have hshort : ∀ field ∈ init ++ [last ++ [0]], field.length ≤ argSize := by
    intro field hfield
    rcases List.mem_append.mp hfield with hinit | hzero
    · exact Nat.le_succ_of_le (hfields field (List.mem_append_left _ hinit)).2
    · rw [List.mem_singleton.mp hzero, List.length_append]
      exact Nat.succ_le_succ hlast
  have htable : table (init ++ [last ++ [0]]) = table (init ++ [last]) := by
    rw [table, table, hlen, List.map_append, List.map_append, List.map_singleton,
      List.map_singleton, padded_concat_zero (Nat.lt_succ_of_le hlast)]
  obtain ⟨arg, hrun, hargc, hargv⟩ := @putFields_table [] .zero (init ++ [last ++ [0]]) rfl rfl
    (by rw [List.nil_append, hlen]; exact hcount) hshort
  refine ⟨arg, ?_, ?_, ?_⟩
  · rw [getArgs_eq (by rw [List.length_append, List.length_cons]; omega), hwindow,
      splitOn_joined fun field hfield => (hfields field hfield).1, hrun]
  · rw [hargc, List.nil_append, hlen]
  · rw [hargv, List.nil_append, htable]

theorem getArgs_joined_gap :
    ∃ arg, getArgs ([comma].intercalate [[51], [], [52, 50]] ++ 0 :: [7])
        ([comma].intercalate [[51], [], [52, 50]]).length = .ok arg ∧
      arg.argc = 3 ∧ arg.argv = table [[51], [], [52, 50]] :=
  getArgs_joined (List.cons_ne_nil _ _) (by decide) (by decide) [7]

/-- The fields of a command that are as wide as the rows: `3`, `1`, 5, and zeros. -/
def wideFields : List (List UInt8) :=
  [51 :: List.replicate 63 0, 49 :: List.replicate 63 0, 53 :: List.replicate 63 0,
    List.replicate 64 0, List.replicate 64 0, List.replicate 64 0, List.replicate 64 0,
    List.replicate 57 0]

def wideCommand : List UInt8 := [comma].intercalate wideFields

theorem length_wideCommand : wideCommand.length = 512 := by decide +kernel

/-- It fills what `read` asks for; the last byte that `get_args` looks at is an old zero. -/
theorem splitOn_wideCommand :
    ((readCommand (List.replicate 1024 0) wideCommand).take 513).splitOn comma
      = wideFields.dropLast ++ [List.replicate 58 0] := by
  have hwindow : (readCommand (List.replicate 1024 0) wideCommand).take 513
      = wideCommand ++ [0] := by
    rw [readCommand, splice, List.take_zero, List.nil_append, List.take_append,
      List.take_of_length_le (by rw [length_wideCommand]; decide), length_wideCommand,
      List.drop_replicate, List.take_replicate]
    rfl
  rw [hwindow]
  exact @splitOn_joined wideFields.dropLast (List.replicate 57 0) (by decide)

/-- A command that `get_args` can hold. -/
theorem getArgs_command_wide :
    ∃ arg, getArgs (readCommand (List.replicate 1024 0) wideCommand) 512 = .ok arg := by
  refine (getArgs_command_ok_iff List.length_replicate (by rw [length_wideCommand]; decide)
    (by rw [length_wideCommand])).mpr ?_
  rw [splitOn_wideCommand]
  intro row field hfield
  obtain ⟨hlt, rfl⟩ := List.getElem?_eq_some_iff.mp hfield
  refine .inr ⟨hlt, ?_⟩
  have hall : ∀ field ∈ wideFields.dropLast ++ [List.replicate 58 0], field.length ≤ argSize := by
    decide
  exact hall _ (List.getElem_mem hlt)

end LinuxCodeDemos.NailPrinter

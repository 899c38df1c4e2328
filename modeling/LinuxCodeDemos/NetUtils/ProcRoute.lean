/-
  LinuxCodeDemos.NetUtils.ProcRoute

  `obtain_gateway_proc`: the routes as the lines of `/proc/net/route`.

  A text is a list of characters.  `fgets` and the conversion `%lx` of `sscanf` follow
  their documentation for a 64-bit `long`: white space, a sign and `0x` may stand
  before the digits, and a number that does not fit becomes the largest one.

  The second half shows that a number printed with `%08X` is read back
  (`scanLx_hex8`) and that a line is read whole (`fgets_line`).
-/

import Mathlib.Algebra.Order.Ring.Nat
import Mathlib.Data.List.Basic

namespace LinuxCodeDemos.NetUtils

-- ============================================================================
-- The standard library
-- ============================================================================

def isspace (c : Char) : Bool := c ∈ [' ', '\t', '\n', '\x0b', '\x0c', '\r']

/-- `fgets`: at most `size - 1` characters, up to and with a newline, and the rest. -/
def fgets : Nat → List Char → List Char × List Char
  | 0, text => ([], text)
  | 1, text => ([], text)
  | _, [] => ([], [])
  | size + 2, c :: text =>
      if c = '\n' then ([c], text)
      else (c :: (fgets (size + 1) text).1, (fgets (size + 1) text).2)

/-- The value of a hexadecimal digit. -/
def hexValue (c : Char) : Option Nat :=
  if '0' ≤ c ∧ c ≤ '9' then some (c.toNat - '0'.toNat)
  else if 'A' ≤ c ∧ c ≤ 'F' then some (c.toNat - 'A'.toNat + 10)
  else if 'a' ≤ c ∧ c ≤ 'f' then some (c.toNat - 'a'.toNat + 10)
  else none

def isxdigit (c : Char) : Bool := (hexValue c).isSome

/-- The number that the digits stand for. -/
def hexNumber (digits : List Char) : Nat :=
  digits.foldl (fun n c => 16 * n + (hexValue c).getD 0) 0

/-- A sign, and what is behind it. -/
def scanSign : List Char → Bool × List Char
  | '-' :: text => (true, text)
  | '+' :: text => (false, text)
  | text => (false, text)

/-- What is behind an optional `0x`. -/
def skip0x : List Char → List Char
  | '0' :: 'x' :: text => text
  | '0' :: 'X' :: text => text
  | text => text

/-- The conversion `%lx`: the number and the rest of the text. -/
def scanLx (text : List Char) : Option (Nat × List Char) :=
  let signed := scanSign (text.dropWhile isspace)
  let text := skip0x signed.2
  let digits := text.takeWhile isxdigit
  let n := min (hexNumber digits) (2 ^ 64 - 1)
  if digits = [] then none
  else some (if signed.1 then (2 ^ 64 - n) % 2 ^ 64 else n, text.dropWhile isxdigit)

-- ============================================================================
-- `obtain_gateway_proc`
-- ============================================================================

/-- The `d` and `g` of a line. -/
def scanLine (buf : List Char) : Option (Nat × Nat) := do
  let p := buf.takeWhile (· ≠ '\x00')
  let p := p.dropWhile (fun c => ¬ isspace c)
  let p := p.dropWhile isspace
  let (d, p) ← scanLx p
  let (g, _) ← scanLx p
  some (d, g)

theorem fgets_length (size : Nat) (text : List Char) :
    (fgets size text).1.length + (fgets size text).2.length = text.length := by
  fun_induction fgets size text with
  | case1 text => exact Nat.zero_add _
  | case2 text => exact Nat.zero_add _
  | case3 => rfl
  | case4 size text =>
      simp only [List.length_cons, List.length_nil]
      omega
  | case5 size c text h ih =>
      simp only [List.length_cons]
      omega

theorem fgets_ne_nil (size : Nat) {text : List Char} (h : text ≠ []) :
    (fgets (size + 2) text).1 ≠ [] := by
  cases text with
  | nil => exact absurd rfl h
  | cons c text =>
      rw [fgets]
      split
      · exact List.cons_ne_nil _ _
      · exact List.cons_ne_nil _ _

/-- The loop of `obtain_gateway_proc`, in front of line `line`: the address of the first
    default route. -/
def scanRoutes (line : Nat) (text : List Char) : Option Nat :=
  if text = [] then none
  else
    match (if 0 < line then scanLine (fgets 256 text).1 else none) with
    | some (0, g) => some (g % 2 ^ 32)
    | _ => scanRoutes (line + 1) (fgets 256 text).2
termination_by text.length
decreasing_by
  rename_i h
  have hsum := fgets_length 256 text
  have hne : 0 < (fgets 256 text).1.length := List.length_pos_iff.mpr (fgets_ne_nil 254 h)
  omega

/-- `obtain_gateway_proc`: the address, unless it returns -1. -/
def obtainGatewayProc (text : List Char) : Option Nat := scanRoutes 0 text

-- ============================================================================
-- Printed numbers and lines
-- ============================================================================

/-- A digit of `%X`. -/
def hexDigit (n : Nat) : Char := Char.ofNat (if n < 10 then '0'.toNat + n else 'A'.toNat + (n - 10))

/-- `%08X` of a 32-bit number. -/
def hex8 (n : Nat) : List Char :=
  [7, 6, 5, 4, 3, 2, 1, 0].map fun i => hexDigit (n / 16 ^ i % 16)

theorem hexValue_hexDigit : ∀ n < 16, hexValue (hexDigit n) = some n := by
  decide

theorem hexDigit_plain : ∀ n < 16, (isspace (hexDigit n) = false ∧ hexDigit n ≠ '\x00') ∧
    hexDigit n ≠ '-' ∧ hexDigit n ≠ '+' ∧ hexDigit n ≠ 'x' ∧ hexDigit n ≠ 'X' := by
  decide

theorem isxdigit_hex8 {n : Nat} {c : Char} (h : c ∈ hex8 n) : isxdigit c = true := by
  obtain ⟨i, _, rfl⟩ := List.mem_map.mp h
  rw [isxdigit, hexValue_hexDigit _ (Nat.mod_lt _ (by omega))]
  rfl

/-- The next digit behind those of `n / 16 ^ (i + 1)`. -/
theorem next_hexDigit (n i : Nat) :
    16 * (n / 16 ^ (i + 1)) + (hexValue (hexDigit (n / 16 ^ i % 16))).getD 0 = n / 16 ^ i := by
  rw [hexValue_hexDigit _ (Nat.mod_lt _ (by omega)), Option.getD_some, Nat.pow_succ,
    ← Nat.div_div_eq_div_mul]
  exact Nat.div_add_mod _ 16

theorem hexNumber_hex8 {n : Nat} (h : n < 2 ^ 32) : hexNumber (hex8 n) = n := by
  have hzero : n / 16 ^ (7 + 1) = 0 := Nat.div_eq_of_lt (by omega)
  have hfirst := next_hexDigit n 7
  rw [hzero] at hfirst
  simp only [hexNumber, hex8, List.map_cons, List.map_nil, List.foldl_cons, List.foldl_nil]
  rw [hfirst, next_hexDigit n 6, next_hexDigit n 5, next_hexDigit n 4, next_hexDigit n 3,
    next_hexDigit n 2, next_hexDigit n 1, next_hexDigit n 0, Nat.pow_zero, Nat.div_one]

theorem scanSign_of_ne {c : Char} {text : List Char} (hminus : c ≠ '-') (hplus : c ≠ '+') :
    scanSign (c :: text) = (false, c :: text) := by
  rw [scanSign]
  · intro text' h
    exact hminus (List.cons.inj h).1
  · intro text' h
    exact hplus (List.cons.inj h).1

theorem skip0x_of_ne {c d : Char} {text : List Char} (hx : d ≠ 'x') (hX : d ≠ 'X') :
    skip0x (c :: d :: text) = c :: d :: text := by
  rw [skip0x]
  · intro text' h
    exact hx (List.cons.inj (List.cons.inj h).2).1
  · intro text' h
    exact hX (List.cons.inj (List.cons.inj h).2).1

/-- A printed number is read back, whatever follows it. -/
theorem scanLx_hex8 {n : Nat} (h : n < 2 ^ 32) {c : Char} (hc : isxdigit c = false)
    {space : List Char} (hspace : ∀ s ∈ space, isspace s = true) (rest : List Char) :
    scanLx (space ++ hex8 n ++ c :: rest) = some (n, c :: rest) := by
  have hplain : ∀ m, _ := fun m => hexDigit_plain (m % 16) (Nat.mod_lt _ (by omega))
  have hskip : (space ++ hex8 n ++ c :: rest).dropWhile isspace = hex8 n ++ c :: rest := by
    rw [List.append_assoc, List.dropWhile_append_of_pos hspace]
    rw [hex8, List.map_cons, List.cons_append, List.dropWhile_cons_of_neg]
    rw [(hplain _).1.1]
    exact Bool.false_ne_true
  have hsign : scanSign (hex8 n ++ c :: rest) = (false, hex8 n ++ c :: rest) :=
    scanSign_of_ne (hplain _).2.1 (hplain _).2.2.1
  have h0x : skip0x (hex8 n ++ c :: rest) = hex8 n ++ c :: rest :=
    skip0x_of_ne (hplain _).2.2.2.1 (hplain _).2.2.2.2
  have htake : (hex8 n ++ c :: rest).takeWhile isxdigit = hex8 n := by
    rw [List.takeWhile_append_of_pos (fun d hd => isxdigit_hex8 hd), List.takeWhile_cons_of_neg,
      List.append_nil]
    rw [hc]
    exact Bool.false_ne_true
  have hdrop : (hex8 n ++ c :: rest).dropWhile isxdigit = c :: rest := by
    rw [List.dropWhile_append_of_pos (fun d hd => isxdigit_hex8 hd), List.dropWhile_cons_of_neg]
    rw [hc]
    exact Bool.false_ne_true
  have hmin : min n (2 ^ 64 - 1) = n := by omega
  simp only [scanLx, hskip, hsign, h0x, htake, hdrop, hexNumber_hex8 h, hmin]
  rfl

/-- A line that fits the buffer is read whole. -/
theorem fgets_line {size : Nat} {text : List Char} (hline : '\n' ∉ text)
    (hsize : text.length + 2 ≤ size) (rest : List Char) :
    fgets size (text ++ '\n' :: rest) = (text ++ ['\n'], rest) := by
  induction text generalizing size with
  | nil =>
      obtain ⟨size, rfl⟩ : ∃ m, size = m + 2 := ⟨size - 2, by
        rw [List.length_nil] at hsize
        omega⟩
      rw [List.nil_append, fgets, if_pos rfl, List.nil_append]
  | cons c text ih =>
      rw [List.mem_cons, not_or] at hline
      rw [List.length_cons] at hsize
      obtain ⟨size, rfl⟩ : ∃ m, size = m + 2 := ⟨size - 2, by omega⟩
      rw [List.cons_append, fgets, if_neg (Ne.symm hline.1), ih hline.2 (by omega)]
      rfl

end LinuxCodeDemos.NetUtils

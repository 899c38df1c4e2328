/-
  LinuxCodeDemos.NetInterface.Dns

  `get_IPV4_DNS` of `LocalInfo.c`: the name server in `/etc/resolv.conf`.

  The parser looks for the line and its newline, finds the address, clears everything behind it that
  is no digit and no dot, and copies as many bytes as the line has, but from the address on.  So the
  copy reaches as far behind the address as the address is into its line; nothing but zeros and the
  digits and dots of later lines is there, and a second line with a name server is not found any
  more (`dnsLoop_end`).
-/

import LinuxCodeDemos.Lib.CString
import LinuxCodeDemos.Lib.Run

namespace LinuxCodeDemos.NetInterface

open Lib

-- ============================================================================
-- `get_IPV4_DNS`
-- ============================================================================

/-- `"nameserver"`. -/
def nameserver : List UInt8 := [110, 97, 109, 101, 115, 101, 114, 118, 101, 114]

/-- `isdigit(ch) || ch == '.'`. -/
def isAddress (ch : UInt8) : Bool := 48 ≤ ch ∧ ch ≤ 57 ∨ ch = 46

def newline : UInt8 := 10

/-- `while(*pTmp != '\n')`: the value of `count` behind it. -/
def lineLength : List UInt8 → Nat → Except Fault Nat
  | [], _ => .error .read
  | ch :: rest, count => if ch = newline then .ok count else lineLength rest (count + 1)

/-- The loop to the first digit or dot: `pFound` behind it, and whether `pFoundIP` is set. -/
def findAddress : List UInt8 → Nat → Except Fault (Nat × Bool)
  | [], _ => .error .read
  | ch :: rest, pFound =>
      if ch = 0 then .ok (pFound, false)
      else if isAddress ch then .ok (pFound, true)
      else findAddress rest (pFound + 1)

/-- The loop that clears what is no digit and no dot, on the bytes from `pFound` on. -/
def clearRest : List UInt8 → Except Fault (List UInt8)
  | [] => .error .read
  | ch :: rest =>
      if ch = 0 then .ok (ch :: rest)
      else do
        let rest ← clearRest rest
        .ok ((if isAddress ch then ch else 0) :: rest)

/-- The variables of the outer loop. -/
structure Dns where
  strBuf : List UInt8
  pStr : Nat
  pFoundIP : Option Nat
  dns : List UInt8
  deriving DecidableEq, Repr

/-- A turn of the outer loop, for a `nameserver` at `pFound`. -/
def dnsTurn (s : Dns) (pFound : Nat) : Except Fault Dns := do
  let count ← lineLength (s.strBuf.drop pFound) 0
  let (pFound', found) ← findAddress (s.strBuf.drop pFound) pFound
  let pFoundIP := if found then some pFound' else s.pFoundIP
  let cleared ← clearRest (s.strBuf.drop pFound')
  let strBuf := s.strBuf.take pFound' ++ cleared
  -- a null pointer is read from if there never was an address
  let bytes ←
    match pFoundIP with
    | some ip => loadBytes strBuf ip count
    | none => .error .read
  let dns ← store s.dns 0 bytes
  let dns ← store dns count [0]
  .ok { strBuf := strBuf, pStr := pFound + count + 1, pFoundIP := pFoundIP, dns := dns }

/-- The outer loop, for at most `fuel` turns. -/
def dnsLoop : Nat → Dns → Except Fault (Option Dns)
  | 0, _ => .ok none
  | fuel + 1, s => do
      let text ← cString s.strBuf s.pStr
      match find nameserver text with
      | none => .ok (some s)
      | some i => do
          let s ← dnsTurn s (s.pStr + i)
          dnsLoop fuel s

/-- `get_IPV4_DNS`: its return value and `dns`.  There is no file if it cannot be opened or read. -/
def getIPV4DNS (fuel : Nat) (file : Option (List UInt8)) (dns : List UInt8) :
    Except Fault (Option (Int × List UInt8)) :=
  match file with
  | none => .ok (some (-1, dns))
  | some content => do
      let strBuf ← store (List.replicate 1024 0) 0 (content.take 1024)
      let strBuf ← store strBuf (content.take 1024).length [0]
      let s ← dnsLoop fuel { strBuf := strBuf, pStr := 0, pFoundIP := none, dns := dns }
      .ok (s.map fun s => (0, s.dns))

-- ============================================================================
-- Files with a name server
-- ============================================================================

/-- The text of a file: something, `nameserver`, blanks and an address, and the rest behind a
    newline if there is one. -/
def confText (before blanks address : List UInt8) (rest : Option (List UInt8)) : List UInt8 :=
  before ++ (nameserver ++ (blanks ++ (address ++ rest.elim [] (newline :: ·))))

/-- A `resolv.conf` of at most 1024 bytes with a line for a name server, before which the word
    does not occur.  Any text of digits and dots counts as an address. -/
structure ResolvConf where
  before : List UInt8
  blanks : List UInt8
  address : List UInt8
  rest : Option (List UInt8)
  noNul : 0 ∉ confText before blanks address rest
  first : ∀ i < before.length,
    ((confText before blanks address rest).drop i).take nameserver.length ≠ nameserver
  blank : ∀ ch ∈ blanks, ch = 32 ∨ ch = 9
  dotted : ∀ ch ∈ address, isAddress ch = true
  nonempty : address ≠ []
  fits : (confText before blanks address rest).length ≤ 1024

def ResolvConf.text (c : ResolvConf) : List UInt8 := confText c.before c.blanks c.address c.rest

/-- The bytes of the line in front of the address. -/
def ResolvConf.lead (c : ResolvConf) : Nat := nameserver.length + c.blanks.length

-- ============================================================================
-- The loops
-- ============================================================================

section Loops

variable {text rest : List UInt8}

theorem lineLength_eq (h : newline ∉ text) (count : Nat) :
    lineLength (text ++ newline :: rest) count = .ok (count + text.length) := by
  induction text generalizing count with
  | nil => rfl
  | cons ch text ih =>
      rw [List.cons_append, lineLength, if_neg (List.ne_of_not_mem_cons h).symm,
        ih (fun hmem => h (List.mem_cons_of_mem _ hmem)), List.length_cons, Nat.add_assoc,
        Nat.add_comm 1]

theorem lineLength_none (h : newline ∉ text) (count : Nat) :
    lineLength text count = .error .read := by
  induction text generalizing count with
  | nil => rfl
  | cons ch text ih =>
      rw [lineLength, if_neg (List.ne_of_not_mem_cons h).symm,
        ih fun hmem => h (List.mem_cons_of_mem _ hmem)]

theorem isAddress_ne_zero {ch : UInt8} (h : isAddress ch = true) : ch ≠ 0 := by
  rintro rfl
  exact absurd h (by decide)

theorem findAddress_eq {ch : UInt8} (hch : isAddress ch = true) (hzero : 0 ∉ text)
    (htext : ∀ c ∈ text, isAddress c = false) (pos : Nat) :
    findAddress (text ++ ch :: rest) pos = .ok (pos + text.length, true) := by
  induction text generalizing pos with
  | nil => rw [List.nil_append, findAddress, if_neg (isAddress_ne_zero hch), if_pos hch]; rfl
  | cons c text ih =>
      have hc : ¬ isAddress c = true := by
        rw [htext c (List.mem_cons_self ..)]
        exact Bool.false_ne_true
      rw [List.cons_append, findAddress, if_neg (List.ne_of_not_mem_cons hzero).symm,
        if_neg hc, ih (fun hmem => hzero (List.mem_cons_of_mem _ hmem))
          (fun c' hc' => htext c' (List.mem_cons_of_mem _ hc')), List.length_cons, Nat.add_assoc,
        Nat.add_comm 1]

/-- What is left of a byte. -/
def keep (ch : UInt8) : UInt8 := if isAddress ch then ch else 0

theorem clearRest_eq (h : 0 ∉ text) :
    clearRest (text ++ 0 :: rest) = .ok (text.map keep ++ 0 :: rest) := by
  induction text with
  | nil => rfl
  | cons ch text ih =>
      rw [List.cons_append, clearRest, if_neg (List.ne_of_not_mem_cons h).symm,
        bind_of_ok (ih fun hmem => h (List.mem_cons_of_mem _ hmem))]
      rfl

theorem map_keep (h : ∀ ch ∈ text, isAddress ch = true) : text.map keep = text := by
  have hid : ∀ ch ∈ text, keep ch = id ch := fun ch hch => if_pos (h ch hch)
  rw [List.map_congr_left hid, List.map_id]

/-- No letter of the word is left. -/
theorem letter_not_mem (text : List UInt8) : (110 : UInt8) ∉ text.map keep := by
  intro hmem
  obtain ⟨ch, -, hch⟩ := List.mem_map.mp hmem
  rw [keep] at hch
  split at hch
  · next haddr =>
    rw [hch] at haddr
    exact absurd haddr (by decide)
  · exact absurd hch (by decide)

end Loops

-- ============================================================================
-- The turn for the first name server
-- ============================================================================

section Turn

variable {c : ResolvConf} {r dns : List UInt8}

/-- The line without its newline. -/
def ResolvConf.line (c : ResolvConf) : List UInt8 := nameserver ++ (c.blanks ++ c.address)

theorem ResolvConf.length_line (c : ResolvConf) : c.line.length = c.lead + c.address.length := by
  rw [ResolvConf.line, ResolvConf.lead, List.length_append, List.length_append, Nat.add_assoc]

theorem ResolvConf.newline_not_mem (c : ResolvConf) : newline ∉ c.line := by
  intro hmem
  rcases List.mem_append.mp hmem with h | h
  · exact absurd h (by decide)
  · rcases List.mem_append.mp h with h | h
    · rcases c.blank _ h with h | h <;> exact absurd h (by decide)
    · exact absurd (c.dotted _ h) (by decide)

theorem ResolvConf.text_some (h : c.rest = some r) :
    c.text = c.before ++ (c.line ++ newline :: r) := by
  rw [ResolvConf.text, confText, h, ResolvConf.line]
  simp only [List.append_assoc]
  rfl

theorem ResolvConf.text_none (h : c.rest = none) : c.text = c.before ++ c.line := by
  rw [ResolvConf.text, confText, h, ResolvConf.line]
  simp only [Option.elim_none, List.append_nil]

/-- The zeros behind the text in `strBuf`, without the first one. -/
def ResolvConf.zeros (c : ResolvConf) : List UInt8 := List.replicate (1024 - c.text.length - 1) 0

theorem ResolvConf.drop_line (hlen : c.text.length ≤ 1023) (hrest : c.rest = some r) :
    (inArray 1024 c.text).drop c.before.length = c.line ++ newline :: (r ++ 0 :: c.zeros) := by
  rw [inArray_eq_cons (by omega), ResolvConf.text_some hrest, List.append_assoc, List.drop_left,
    List.append_assoc, List.cons_append, ← ResolvConf.text_some hrest]
  rfl

theorem ResolvConf.drop_address (hlen : c.text.length ≤ 1023) (hrest : c.rest = some r) :
    (inArray 1024 c.text).drop (c.before.length + c.lead)
      = (c.address ++ newline :: r) ++ 0 :: c.zeros := by
  have hlead : (nameserver ++ c.blanks).length = c.lead := List.length_append
  rw [← List.drop_drop, ResolvConf.drop_line hlen hrest, ResolvConf.line, ← List.append_assoc,
    List.append_assoc, List.drop_left' hlead, List.append_assoc, List.cons_append]

/-- `strBuf` behind the address, after the loop that clears it. -/
def ResolvConf.cleared (c : ResolvConf) (r : List UInt8) : List UInt8 :=
  c.address ++ 0 :: (r.map keep ++ 0 :: c.zeros)

theorem findAddress_line (hlen : c.text.length ≤ 1023) (hrest : c.rest = some r) :
    findAddress ((inArray 1024 c.text).drop c.before.length) c.before.length
      = .ok (c.before.length + c.lead, true) := by
  obtain ⟨a, address, haddress⟩ := List.exists_cons_of_ne_nil c.nonempty
  have hsplit : (inArray 1024 c.text).drop c.before.length
      = (nameserver ++ c.blanks) ++ a :: (address ++ newline :: (r ++ 0 :: c.zeros)) := by
    rw [ResolvConf.drop_line hlen hrest, ResolvConf.line, haddress, List.append_assoc,
      List.append_assoc, List.append_assoc, List.cons_append]
  have hzero : 0 ∉ nameserver ++ c.blanks := by
    intro hmem
    rcases List.mem_append.mp hmem with h | h
    · exact absurd h (by decide)
    · rcases c.blank _ h with h | h <;> exact absurd h (by decide)
  have hletters : ∀ ch ∈ nameserver, isAddress ch = false := by
    have hall : nameserver.all (fun ch => !isAddress ch) = true := rfl
    simpa only [List.all_eq_true, Bool.not_eq_true'] using hall
  have hother : ∀ ch ∈ nameserver ++ c.blanks, isAddress ch = false := by
    intro ch hmem
    rcases List.mem_append.mp hmem with h | h
    · exact hletters ch h
    · rcases c.blank _ h with rfl | rfl <;> rfl
  rw [hsplit, findAddress_eq (c.dotted a (haddress ▸ List.mem_cons_self ..)) hzero hother,
    List.length_append]
  rfl

theorem clearRest_address (hlen : c.text.length ≤ 1023) (hrest : c.rest = some r) :
    clearRest ((inArray 1024 c.text).drop (c.before.length + c.lead)) = .ok (c.cleared r) := by
  have hzero : 0 ∉ c.address ++ newline :: r := by
    intro hmem
    apply c.noNul
    show 0 ∈ c.text
    rw [ResolvConf.text_some hrest, ResolvConf.line]
    rcases List.mem_append.mp hmem with h | h
    · simp [h]
    · simp [List.mem_cons.mp h]
  rw [ResolvConf.drop_address hlen hrest, clearRest_eq hzero, List.map_append, map_keep c.dotted,
    List.append_assoc]
  rfl

/-- `strBuf` after the turn. -/
def ResolvConf.strBuf (c : ResolvConf) (r : List UInt8) : List UInt8 :=
  (inArray 1024 c.text).take (c.before.length + c.lead) ++ c.cleared r

/-- The turn up to the copy. -/
theorem dnsTurn_eq (hlen : c.text.length ≤ 1023) (hrest : c.rest = some r) :
    dnsTurn ⟨inArray 1024 c.text, 0, none, dns⟩ c.before.length
      = (loadBytes (c.strBuf r) (c.before.length + c.lead) c.line.length >>= fun bytes =>
          store dns 0 bytes >>= fun dns' =>
            store dns' c.line.length [0] >>= fun dns' =>
              .ok ⟨c.strBuf r, c.before.length + c.line.length + 1,
                some (c.before.length + c.lead), dns'⟩) := by
  have hcount := @lineLength_eq c.line (r ++ 0 :: c.zeros) c.newline_not_mem 0
  rw [← ResolvConf.drop_line hlen hrest, Nat.zero_add] at hcount
  rw [dnsTurn, bind_of_ok hcount, bind_of_ok (findAddress_line hlen hrest)]
  show (clearRest _ >>= _) = _
  rw [bind_of_ok (clearRest_address hlen hrest)]
  rfl

theorem ResolvConf.drop_strBuf (hlen : c.text.length ≤ 1023) (hrest : c.rest = some r) :
    (c.strBuf r).drop (c.before.length + c.lead) = c.cleared r ∧ (c.strBuf r).length = 1024 := by
  have harray := length_inArray (show c.text.length ≤ 1024 by omega)
  have htext := congrArg List.length (ResolvConf.text_some hrest)
  rw [List.length_append, List.length_append, c.length_line, List.length_cons] at htext
  have htake : ((inArray 1024 c.text).take (c.before.length + c.lead)).length
      = c.before.length + c.lead := by
    rw [List.length_take]
    omega
  refine ⟨?_, ?_⟩
  · rw [ResolvConf.strBuf, List.drop_left' htake]
  · rw [ResolvConf.strBuf, List.length_append, htake, ResolvConf.cleared, List.length_append,
      List.length_cons, List.length_append, List.length_map, List.length_cons, ResolvConf.zeros,
      List.length_replicate]
    omega

/-- The copy stays in both arrays. -/
def ResolvConf.CopyFits (c : ResolvConf) (dns : List UInt8) : Prop :=
  c.before.length + 2 * c.lead + c.address.length ≤ 1024 ∧
    c.lead + c.address.length < dns.length

theorem loadBytes_line (hlen : c.text.length ≤ 1023) (hrest : c.rest = some r)
    (hsource : c.before.length + 2 * c.lead + c.address.length ≤ 1024) :
    ∃ more, loadBytes (c.strBuf r) (c.before.length + c.lead) c.line.length
        = .ok (c.address ++ 0 :: more) ∧ (c.address ++ 0 :: more).length = c.line.length := by
  obtain ⟨hdrop, hbuf⟩ := ResolvConf.drop_strBuf hlen hrest
  have hline := c.length_line
  have hlead : 10 ≤ c.lead := Nat.le_add_right _ _
  have hcount : c.line.length - c.address.length = c.lead - 1 + 1 := by omega
  have hbytes : (c.cleared r).take c.line.length
      = c.address ++ 0 :: (r.map keep ++ 0 :: c.zeros).take (c.lead - 1) := by
    rw [ResolvConf.cleared, List.take_append, List.take_of_length_le (by omega), hcount,
      List.take_succ_cons]
  refine ⟨(r.map keep ++ 0 :: c.zeros).take (c.lead - 1), ?_, ?_⟩
  · rw [loadBytes_of_le (by omega), hdrop, hbytes]
  · have hcleared := congrArg List.length hdrop
    rw [List.length_drop, hbuf] at hcleared
    rw [← hbytes, List.length_take]
    omega

/-- A copy that stays in both arrays leaves the address. -/
theorem dnsTurn_ok (hlen : c.text.length ≤ 1023) (hrest : c.rest = some r)
    (hfits : c.CopyFits dns) :
    ∃ dns', dnsTurn ⟨inArray 1024 c.text, 0, none, dns⟩ c.before.length
        = .ok ⟨c.strBuf r, c.before.length + c.line.length + 1,
            some (c.before.length + c.lead), dns'⟩ ∧
      cString dns' 0 = .ok c.address := by
  obtain ⟨hsource, hroom⟩ := hfits
  have hline := c.length_line
  have hlead : 10 ≤ c.lead := Nat.le_add_right _ _
  obtain ⟨more, hload, hbytes⟩ := loadBytes_line hlen hrest hsource
  have hfirst : 0 + (c.address ++ 0 :: more).length ≤ dns.length := by omega
  have hlast : c.line.length < (splice dns 0 (c.address ++ 0 :: more)).length := by
    rw [splice_length hfirst]
    omega
  refine ⟨(splice dns 0 (c.address ++ 0 :: more)).set c.line.length 0, ?_, ?_⟩
  · rw [dnsTurn_eq hlen hrest, bind_of_ok hload, bind_of_ok (store_of_le hfirst),
      bind_of_ok (store_single hlast 0)]
  · have hcount : c.line.length - c.address.length = c.lead - 1 + 1 := by omega
    have hsplit : ((splice dns 0 (c.address ++ 0 :: more)).set c.line.length 0).drop 0
        = c.address ++ 0 :: ((more ++ dns.drop c.line.length).set (c.lead - 1) 0) := by
      rw [List.drop_zero, splice, List.take_zero, List.nil_append, List.append_assoc, hbytes,
        Nat.zero_add, List.set_append_right _ _ (by omega), hcount]
      rfl
    exact cString_eq hsplit fun hmem => isAddress_ne_zero (c.dotted 0 hmem) rfl

/-- Any other copy leaves one of them. -/
theorem dnsTurn_error (hlen : c.text.length ≤ 1023) (hrest : c.rest = some r)
    (hfits : ¬ c.CopyFits dns) :
    ∃ e, dnsTurn ⟨inArray 1024 c.text, 0, none, dns⟩ c.before.length = .error e := by
  have hline := c.length_line
  have hlead : 10 ≤ c.lead := Nat.le_add_right _ _
  rw [dnsTurn_eq hlen hrest]
  by_cases hsource : c.before.length + 2 * c.lead + c.address.length ≤ 1024
  · obtain ⟨more, hload, hbytes⟩ := loadBytes_line hlen hrest hsource
    have hroom : dns.length ≤ c.line.length := by
      rw [ResolvConf.CopyFits, and_iff_right hsource] at hfits
      omega
    have hne : c.address ++ 0 :: more ≠ [] :=
      List.append_ne_nil_of_right_ne_nil _ (List.cons_ne_nil _ _)
    rw [bind_of_ok hload]
    by_cases hfirst : 0 + (c.address ++ 0 :: more).length ≤ dns.length
    · have hstore : store (splice dns 0 (c.address ++ 0 :: more)) c.line.length [0]
          = .error .write := by
        rw [store, splice_length hfirst, List.length_singleton, if_neg]
        rintro (hnil | hle)
        · exact absurd hnil (List.cons_ne_nil _ _)
        · omega
      rw [bind_of_ok (store_of_le hfirst), hstore]
      exact ⟨.write, rfl⟩
    · have hstore : store dns 0 (c.address ++ 0 :: more) = .error .write := by
        rw [store, if_neg (not_or.mpr ⟨hne, hfirst⟩)]
      rw [hstore]
      exact ⟨.write, rfl⟩
  · have hload : loadBytes (c.strBuf r) (c.before.length + c.lead) c.line.length
        = .error .read := by
      rw [loadBytes, (ResolvConf.drop_strBuf hlen hrest).2, if_neg (by omega)]
    rw [hload]
    exact ⟨.read, rfl⟩

end Turn

-- ============================================================================
-- The call
-- ============================================================================

section Call

variable {c : ResolvConf} {r dns : List UInt8}

/-- The first turn is for the line of the name server. -/
theorem dnsLoop_first (hlen : c.text.length ≤ 1023) (fuel : Nat) :
    dnsLoop (fuel + 1) ⟨inArray 1024 c.text, 0, none, dns⟩
      = dnsTurn ⟨inArray 1024 c.text, 0, none, dns⟩ c.before.length >>= dnsLoop fuel := by
  have htext : cString (inArray 1024 c.text) 0 = .ok c.text :=
    cString_eq (inArray_eq_cons (by omega)) c.noNul
  have hfind : find nameserver c.text = some c.before.length :=
    find_first c.before _ (by decide) c.first
  rw [dnsLoop, bind_of_ok htext, hfind]
  show dnsTurn _ (0 + c.before.length) >>= _ = _
  rw [Nat.zero_add]

/-- Behind the address no other name server is found. -/
theorem dnsLoop_end (hlen : c.text.length ≤ 1023) (hrest : c.rest = some r) (fuel : Nat)
    (ip : Option Nat) :
    dnsLoop (fuel + 1) ⟨c.strBuf r, c.before.length + c.line.length + 1, ip, dns⟩
      = .ok (some ⟨c.strBuf r, c.before.length + c.line.length + 1, ip, dns⟩) := by
  have hdrop : (c.strBuf r).drop (c.before.length + c.line.length + 1)
      = r.map keep ++ 0 :: c.zeros := by
    have hoff : c.before.length + c.line.length + 1
        = c.before.length + c.lead + (c.address.length + 1) := by
      rw [c.length_line]
      omega
    rw [hoff, ← List.drop_drop, (ResolvConf.drop_strBuf hlen hrest).1, ResolvConf.cleared,
      ← List.drop_drop, List.drop_left]
    rfl
  have htext : cString (c.strBuf r) (c.before.length + c.line.length + 1)
      = .ok ((r.map keep ++ 0 :: c.zeros).takeWhile (· ≠ 0)) := by
    rw [cString, hdrop, if_pos (List.mem_append_right _ (List.mem_cons_self ..))]
  have hnone : find nameserver ((r.map keep ++ 0 :: c.zeros).takeWhile (· ≠ 0)) = none := by
    apply find_none (show (110 : UInt8) ∈ nameserver by decide)
    intro hmem
    rcases List.mem_append.mp ((List.takeWhile_sublist _).mem hmem) with h | h
    · exact letter_not_mem r h
    · rcases List.mem_cons.mp h with h | h
      · exact absurd h (by decide)
      · exact absurd (List.eq_of_mem_replicate h) (by decide)
  rw [dnsLoop, bind_of_ok htext, hnone]

/-- Without a newline the loop over the line runs out of `strBuf`. -/
theorem dnsTurn_endless (hlen : c.text.length ≤ 1023) (hrest : c.rest = none) :
    dnsTurn ⟨inArray 1024 c.text, 0, none, dns⟩ c.before.length = .error .read := by
  have hdrop : (inArray 1024 c.text).drop c.before.length = c.line ++ 0 :: c.zeros := by
    rw [inArray_eq_cons (by omega), ResolvConf.text_none hrest, List.append_assoc, List.drop_left,
      ← ResolvConf.text_none hrest]
    rfl
  have hnone : newline ∉ c.line ++ 0 :: c.zeros := by
    intro hmem
    rcases List.mem_append.mp hmem with h | h
    · exact c.newline_not_mem h
    · rcases List.mem_cons.mp h with h | h
      · exact absurd h (by decide)
      · exact absurd (List.eq_of_mem_replicate h) (by decide)
  rw [dnsTurn, hdrop, lineLength_none hnone]
  rfl

/-- The call on a file that leaves room for the NUL. -/
theorem getIPV4DNS_short (hlen : c.text.length ≤ 1023) (fuel : Nat) :
    getIPV4DNS fuel (some c.text) dns
      = dnsLoop fuel ⟨inArray 1024 c.text, 0, none, dns⟩ >>= fun s =>
          .ok (s.map fun s => (0, s.dns)) := by
  have hstore : store (List.replicate 1024 0) 0 c.text = .ok (inArray 1024 c.text) := by
    rw [store_of_le (by rw [List.length_replicate]; omega), splice_cleared]
  rw [getIPV4DNS, List.take_of_length_le (by omega), bind_of_ok hstore,
    bind_of_ok (store_terminator (by omega))]

/-- A file of 1024 bytes has its NUL behind `strBuf`. -/
theorem getIPV4DNS_full (hlen : c.text.length = 1024) (fuel : Nat) :
    getIPV4DNS fuel (some c.text) dns = .error .write := by
  have hstore : store (List.replicate 1024 0) 0 c.text = .ok (inArray 1024 c.text) := by
    rw [store_of_le (by rw [List.length_replicate]; omega), splice_cleared]
  have hnul : store (inArray 1024 c.text) c.text.length [0] = .error .write := by
    rw [store, length_inArray (by omega), List.length_singleton, if_neg]
    rintro (hnil | hle)
    · exact absurd hnil (List.cons_ne_nil _ _)
    · omega
  rw [getIPV4DNS, List.take_of_length_le (by omega), bind_of_ok hstore, hnul]
  rfl

/-- The call fails if its first turn does. -/
theorem getIPV4DNS_error (hlen : c.text.length ≤ 1023) {e : Fault}
    (hturn : dnsTurn ⟨inArray 1024 c.text, 0, none, dns⟩ c.before.length = .error e) (fuel : Nat)
    (dns' : List UInt8) : getIPV4DNS fuel (some c.text) dns ≠ .ok (some (0, dns')) := by
  rw [getIPV4DNS_short hlen]
  cases fuel with
  | zero => exact fun h => (by cases h)
  | succ fuel =>
      rw [dnsLoop_first hlen, hturn]
      exact fun h => (by cases h)

/-- For every `resolv.conf` with a name server, `get_IPV4_DNS` comes to an end inside its
    buffers and leaves the address in `dns` exactly if the file has at most 1023 bytes, the line
    ends with a newline, and as many bytes as the line has can be copied from the address on. -/
theorem getIPV4DNS_address_iff (c : ResolvConf) (dns : List UInt8) :
    (∃ fuel dns', getIPV4DNS fuel (some c.text) dns = .ok (some (0, dns')) ∧
        cString dns' 0 = .ok c.address) ↔
      c.text.length ≤ 1023 ∧ c.rest ≠ none ∧
        c.before.length + 2 * c.lead + c.address.length ≤ 1024 ∧
        c.lead + c.address.length < dns.length := by
  have hfits : c.text.length ≤ 1024 := c.fits
  refine ⟨?_, ?_⟩
  · rintro ⟨fuel, dns', hcall, -⟩
    by_cases hlen : c.text.length ≤ 1023
    · cases hrest : c.rest with
      | none => exact absurd hcall (getIPV4DNS_error hlen (dnsTurn_endless hlen hrest) fuel dns')
      | some r =>
          by_cases hcopy : c.CopyFits dns
          · exact ⟨hlen, fun h => (by cases h), hcopy⟩
          · obtain ⟨e, hturn⟩ := dnsTurn_error hlen hrest hcopy
            exact absurd hcall (getIPV4DNS_error hlen hturn fuel dns')
    · rw [getIPV4DNS_full (by omega)] at hcall
      cases hcall
  · rintro ⟨hlen, hrest, hcopy⟩
    obtain ⟨r, hrest⟩ := Option.ne_none_iff_exists'.mp hrest
    obtain ⟨dns', hturn, haddress⟩ := dnsTurn_ok hlen hrest hcopy
    refine ⟨2, dns', ?_, haddress⟩
    rw [getIPV4DNS_short hlen, dnsLoop_first hlen, hturn]
    show dnsLoop 1 _ >>= _ = _
    rw [dnsLoop_end hlen hrest 0]
    rfl

end Call

/-- A file with nothing but a name server, and no newline behind it. -/
def oneLine : ResolvConf where
  before := []
  blanks := [32]
  address := [49, 46, 49, 46, 49, 46, 49]
  rest := none
  noNul := by decide
  first := fun i hi => absurd hi (Nat.not_lt_zero i)
  blank := List.forall_mem_singleton.mpr (.inl rfl)
  dotted := List.all_eq_true.mp rfl
  nonempty := by decide
  fits := by decide

/-- `nameserver 1.1.1.1` without a newline: the loop over the line reads beyond `strBuf`. -/
theorem getIPV4DNS_oneLine :
    ¬ ∃ fuel dns', getIPV4DNS fuel (some oneLine.text) (List.replicate 256 0)
        = .ok (some (0, dns')) ∧ cString dns' 0 = .ok oneLine.address := by
  rintro ⟨fuel, dns', hcall, -⟩
  have hlen : oneLine.text.length ≤ 1023 := by decide
  exact getIPV4DNS_error hlen (dnsTurn_endless hlen rfl) fuel dns' hcall

end LinuxCodeDemos.NetInterface

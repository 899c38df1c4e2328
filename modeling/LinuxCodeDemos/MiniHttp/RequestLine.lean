/-
  LinuxCodeDemos.MiniHttp.RequestLine

  The request line in `do_http_request`.

  The method and the url are copied up to white space or the end of their arrays; a NUL is copied
  like any other byte, so behind the text of the line the copies go on through the rest of `buf`.
  For the method that is harmless.  A url that starts behind `buf[256]` and is not followed by white
  space is copied from beyond `buf` (`parseUrl_eq`).

  The method is compared over the bytes that were copied only: `FalseGet` are the lines that are
  taken for GET and are not.
-/

import LinuxCodeDemos.Lib.CString
import LinuxCodeDemos.MiniHttp.GetLine

namespace LinuxCodeDemos.MiniHttp

open Lib

-- ============================================================================
-- The parse of the request line
-- ============================================================================

/-- `isspace` of the C locale. -/
def isspace (ch : UInt8) : Bool := ch = 32 ∨ 9 ≤ ch ∧ ch ≤ 13

def tolower (ch : UInt8) : UInt8 := if 65 ≤ ch ∧ ch ≤ 90 then ch + 32 else ch

/-- `while(!isspace(buf[j]) && (i < limit)) dst[i++] = buf[j++]`, with `left = limit - i`. -/
def copyWord (buf : List UInt8) :
    Nat → List UInt8 → Nat → Nat → Except Fault (List UInt8 × Nat × Nat)
  | left, dst, i, j => do
      let ch ← load buf j
      if isspace ch then .ok (dst, i, j)
      else
        match left with
        | 0 => .ok (dst, i, j)
        | left + 1 => do
            let dst ← store dst i [ch]
            copyWord buf left dst (i + 1) (j + 1)

/-- `while(isspace(buf[++j]))`; the list is `buf` from `++j` on. -/
def skipBlanks : List UInt8 → Nat → Except Fault Nat
  | [], _ => .error .read
  | ch :: rest, j => if isspace ch then skipBlanks rest (j + 1) else .ok (j + 1)

/-- `strncasecmp(a, b, n) == 0`, of strings that end with a NUL. -/
def strncasecmp : List UInt8 → List UInt8 → Nat → Bool
  | _, _, 0 => true
  | a :: as, b :: bs, n + 1 =>
      if tolower a ≠ tolower b then false else if a = 0 then true else strncasecmp as bs n
  | _, _, _ + 1 => false

/-- `"GET"`. -/
def getName : List UInt8 := [71, 69, 84]

/-- `method`, whether the GET branch is taken, and `url`. -/
structure Request where
  method : List UInt8
  get : Bool
  url : List UInt8
  deriving DecidableEq, Repr

/-- The url in the GET branch, with the method up to `j`. -/
def parseUrl (buf : List UInt8) (j : Nat) : Except Fault (List UInt8) := do
  let j ← skipBlanks (buf.drop (j + 1)) j
  let (url, i, _) ← copyWord buf 255 (List.replicate 256 0) 0 j
  store url i [0]

/-- What `do_http_request` makes of the request line in `buf`. -/
def parseRequestLine (buf : List UInt8) : Except Fault Request := do
  let (method, i, j) ← copyWord buf 15 (List.replicate 16 0) 0 0
  let method ← store method i [0]
  if strncasecmp method (getName ++ [0]) i then do
    let url ← parseUrl buf j
    .ok ⟨method, true, url⟩
  else .ok ⟨method, false, List.replicate 256 0⟩

-- ============================================================================
-- What a request line says
-- ============================================================================

def lower (text : List UInt8) : List UInt8 := text.map tolower

/-- The characters up to the first white space. -/
def word (text : List UInt8) : List UInt8 := text.takeWhile fun ch => ¬ isspace ch

/-- The text before the first white space is GET in any letter case. -/
def IsGet (line : List UInt8) : Prop := lower (word line) = lower getName

/-- The next run of characters that are no white space, as far as there is room for it. -/
def urlText (line : List UInt8) : List UInt8 :=
  (word ((line.drop (word line).length).dropWhile isspace)).take 255

/-- The GET branch is taken exactly for GET, and then `url` is the url of the line. -/
structure ParsedRight (line : List UInt8) (r : Request) : Prop where
  get : r.get = true ↔ IsGet line
  url : r.get = true → r.url = inArray 256 (urlText line)

-- ============================================================================
-- The loops
-- ============================================================================

section Loops

variable {buf : List UInt8}

theorem word_cons {ch : UInt8} {text : List UInt8} (h : isspace ch = false) :
    word (ch :: text) = ch :: word text :=
  List.takeWhile_cons_of_pos (by simp [h])

theorem word_cons_space {ch : UInt8} {text : List UInt8} (h : isspace ch = true) :
    word (ch :: text) = [] :=
  List.takeWhile_cons_of_neg (by simp [h])

/-- A word is copied if it is longer than the room or ends before the block does. -/
theorem copyWord_eq :
    ∀ (tail : List UInt8) (left : Nat) (dst : List UInt8) (i j : Nat), buf.drop j = tail →
      i + left ≤ dst.length →
      copyWord buf left dst i j =
        if left < (word tail).length ∨ (word tail).length < tail.length then
          .ok (splice dst i ((word tail).take left), i + min left (word tail).length,
            j + min left (word tail).length)
        else .error .read := by
  intro tail
  induction tail with
  | nil =>
      intro left dst i j htail hdst
      have hload : load buf j = .error .read := by
        rw [load, List.getElem?_eq_none (List.drop_eq_nil_iff.mp htail)]
      rw [copyWord, hload, if_neg (by simp [word])]
      rfl
  | cons ch tail ih =>
      intro left dst i j htail hdst
      have hload : load buf j = .ok ch := by
        apply load_eq_ok
        rw [← List.head?_drop, htail]
        rfl
      have hnext : buf.drop (j + 1) = tail := by
        rw [← List.drop_drop, htail]
        rfl
      rw [copyWord, bind_of_ok hload]
      cases hspace : isspace ch with
      | true =>
          rw [if_pos rfl, word_cons_space hspace, if_pos (.inr (Nat.succ_pos _)), List.take_nil,
            splice_nil, List.length_nil, Nat.min_zero]
          rfl
      | false =>
          rw [if_neg Bool.false_ne_true, word_cons hspace]
          cases left with
          | zero =>
              rw [if_pos (.inl (Nat.succ_pos _)), List.take_zero, splice_nil, Nat.zero_min]
              rfl
          | succ left =>
              have hcond : left + 1 < (ch :: word tail).length
                    ∨ (ch :: word tail).length < (ch :: tail).length ↔
                  left < (word tail).length ∨ (word tail).length < tail.length := by
                rw [List.length_cons, List.length_cons]
                omega
              have hcopy : i + (ch :: (word tail).take left).length ≤ dst.length := by
                rw [List.length_cons, List.length_take]
                omega
              show (store dst i [ch] >>= _) = _
              rw [bind_of_ok (store_single (by omega) ch),
                ih left (dst.set i ch) (i + 1) (j + 1) hnext (by rw [List.length_set]; omega)]
              by_cases h : left < (word tail).length ∨ (word tail).length < tail.length
              · have hmin : min (left + 1) (ch :: word tail).length
                    = 1 + min left (word tail).length := by
                  rw [List.length_cons]
                  omega
                rw [if_pos h, if_pos (hcond.mpr h), splice_set hcopy, hmin, Nat.add_assoc,
                  Nat.add_assoc, List.take_succ_cons]
              · rw [if_neg h, if_neg (mt hcond.mp h)]

theorem skipBlanks_eq (tail : List UInt8) (j : Nat) :
    skipBlanks tail j =
      if tail.dropWhile isspace = [] then .error .read
      else .ok (j + 1 + (tail.length - (tail.dropWhile isspace).length)) := by
  induction tail generalizing j with
  | nil => rfl
  | cons ch tail ih =>
      have hle := (List.dropWhile_suffix isspace (l := tail)).length_le
      rw [skipBlanks]
      cases hspace : isspace ch with
      | true =>
          rw [if_pos rfl, ih, List.dropWhile_cons_of_pos hspace, List.length_cons]
          split
          · rfl
          · exact congrArg Except.ok (by omega)
      | false =>
          rw [if_neg Bool.false_ne_true, List.dropWhile_cons_of_neg (by simp [hspace]),
            if_neg (List.cons_ne_nil _ _), Nat.sub_self]

end Loops

-- ============================================================================
-- The method
-- ============================================================================

section Method

variable {m : List UInt8}

theorem tolower_eq_zero {ch : UInt8} : tolower ch = 0 ↔ ch = 0 := by
  rw [tolower]
  split
  · next h =>
    have hlow : 65 ≤ ch.toNat := UInt8.le_iff_toNat_le.mp h.1
    have hhigh : ch.toNat ≤ 90 := UInt8.le_iff_toNat_le.mp h.2
    rw [← UInt8.toNat_inj, ← UInt8.toNat_inj, UInt8.toNat_add]
    show (ch.toNat + 32) % 256 = 0 ↔ ch.toNat = 0
    omega
  · rfl

/-- The methods that are taken for GET: a part of it, and what begins with it and a NUL. -/
def TakenForGet (m : List UInt8) : Prop :=
  m.length ≤ 3 ∧ lower m = lower (getName.take m.length) ∨
    lower (m.take 3) = lower getName ∧ m[3]? = some 0

/-- A letter that is compared and not the last one. -/
theorem strncasecmp_cons {a b : UInt8} (as bs : List UInt8) (n : Nat) (hb : tolower b ≠ 0) :
    strncasecmp (a :: as) (b :: bs) (n + 1) = true ↔
      tolower a = tolower b ∧ strncasecmp as bs n = true := by
  rw [strncasecmp]
  by_cases h : tolower a = tolower b
  · have ha : a ≠ 0 := fun hzero => hb (h ▸ tolower_eq_zero.mpr hzero)
    rw [if_neg (not_not.mpr h), if_neg ha, and_iff_right h]
  · rw [if_pos h]
    exact iff_of_false Bool.false_ne_true fun hand => h hand.1

theorem strncasecmp_get (hm : m.length ≤ 15) :
    strncasecmp (inArray 16 m) (getName ++ [0]) m.length = true ↔ TakenForGet m := by
  match m, hm with
  | [], _ => exact iff_of_true rfl (.inl ⟨Nat.zero_le _, rfl⟩)
  | [a], _ =>
      have hcompare := strncasecmp_cons (a := a) (b := 71) (List.replicate 15 0) [69, 84, 0] 0
        (by decide)
      refine hcompare.trans ?_
      simp [TakenForGet, lower, getName, strncasecmp]
  | [a, b], _ =>
      have hcompare := strncasecmp_cons (a := a) (b := 71) (b :: List.replicate 14 0) [69, 84, 0] 1
        (by decide)
      refine hcompare.trans ?_
      rw [strncasecmp_cons _ _ 0 (by decide)]
      simp [TakenForGet, lower, getName, strncasecmp]
  | [a, b, c], _ =>
      have hcompare := strncasecmp_cons (a := a) (b := 71) (b :: c :: List.replicate 13 0)
        [69, 84, 0] 2 (by decide)
      refine hcompare.trans ?_
      rw [strncasecmp_cons _ _ 1 (by decide), strncasecmp_cons _ _ 0 (by decide)]
      simp [TakenForGet, lower, getName, strncasecmp]
  | a :: b :: c :: d :: rest, hm =>
      have hcompare := strncasecmp_cons (a := a) (b := 71)
        (b :: c :: d :: (rest ++ List.replicate (16 - (rest.length + 4)) 0)) [69, 84, 0]
        (rest.length + 3) (by decide)
      refine hcompare.trans ?_
      rw [strncasecmp_cons _ _ (rest.length + 2) (by decide),
        strncasecmp_cons _ _ (rest.length + 1) (by decide), strncasecmp]
      have hzero : tolower 0 = 0 := rfl
      by_cases hd : d = 0
      · simp [TakenForGet, lower, getName, hd]
      · have hne : tolower d ≠ tolower 0 := fun h => hd (tolower_eq_zero.mp h)
        rw [if_pos hne]
        simp [TakenForGet, lower, getName, hd]

end Method

-- ============================================================================
-- A line in a cleared buffer
-- ============================================================================

section Cleared

variable {line text : List UInt8} {size k : Nat}

theorem isspace_zero : isspace 0 = false := rfl

/-- A copy loop into a cleared array and the NUL behind it. -/
theorem copyWord_cleared {buf tail : List UInt8} {limit j : Nat} (hlimit : limit < size)
    (htail : buf.drop j = tail)
    (h : limit < (word tail).length ∨ (word tail).length < tail.length) :
    ∃ j', copyWord buf limit (List.replicate size 0) 0 j
        = .ok (inArray size ((word tail).take limit), ((word tail).take limit).length, j') ∧
      j' = j + ((word tail).take limit).length ∧
      store (inArray size ((word tail).take limit)) ((word tail).take limit).length [0]
        = .ok (inArray size ((word tail).take limit)) := by
  refine ⟨j + ((word tail).take limit).length, ?_, rfl, ?_⟩
  · rw [copyWord_eq tail limit _ 0 j htail (by rw [List.length_replicate]; omega), if_pos h,
      splice_cleared, List.length_take, Nat.zero_add]
  · exact store_terminator (by rw [List.length_take]; omega)

theorem word_replicate : word (List.replicate k 0) = List.replicate k 0 := by
  rw [word, List.takeWhile_replicate, isspace_zero]
  rfl

theorem length_word_le (text : List UInt8) : (word text).length ≤ text.length :=
  (List.takeWhile_sublist _).length_le

/-- A text with white space in it is longer than its first word. -/
theorem length_word_lt_iff :
    (word text).length < text.length ↔ ∃ ch ∈ text, isspace ch = true := by
  induction text with
  | nil => exact iff_of_false (Nat.lt_irrefl 0) (by simp)
  | cons ch text ih =>
      cases hspace : isspace ch with
      | true =>
          rw [word_cons_space hspace]
          exact iff_of_true (Nat.succ_pos _) ⟨ch, List.mem_cons_self .., hspace⟩
      | false =>
          rw [word_cons hspace, List.length_cons, List.length_cons, Nat.add_lt_add_iff_right, ih]
          simp [hspace]

theorem word_append_zeros (h : (word text).length < text.length) :
    word (text ++ List.replicate k 0) = word text := by
  have hne : ¬ (word text).length = text.length := by omega
  exact List.takeWhile_append.trans (if_neg hne)

theorem word_append_zeros_all (h : ¬ (word text).length < text.length) :
    word (text ++ List.replicate k 0) = text ++ List.replicate k 0 := by
  have hle := length_word_le text
  have heq : (word text).length = text.length := by omega
  exact List.takeWhile_append.trans ((if_pos heq).trans (congrArg (text ++ ·) word_replicate))

theorem word_eq_self (h : ¬ (word text).length < text.length) : word text = text := by
  have hword := @word_append_zeros_all text 0 h
  rwa [List.replicate_zero, List.append_nil] at hword

/-- The blanks in front of what is left of the line. -/
theorem dropWhile_append_zeros :
    (text ++ List.replicate k 0).dropWhile isspace
      = text.dropWhile isspace ++ List.replicate k 0 := by
  rw [List.dropWhile_append]
  split
  · next hnil =>
    rw [List.isEmpty_iff.mp hnil, List.nil_append]
    cases k with
    | zero => rfl
    | succ k =>
        rw [List.replicate_succ]
        exact List.dropWhile_cons_of_neg (by simp [isspace_zero])
  · rfl

end Cleared

-- ============================================================================
-- The parse as a whole
-- ============================================================================

/-- The method is not GET but taken for it: a part of GET in front of white space, or what begins
    with GET and a NUL. -/
def FalseGet (line : List UInt8) : Prop :=
  (word line).length < 3 ∧ (word line).length < line.length ∧
      lower (word line) = lower (getName.take (word line).length) ∨
    lower ((word line).take 3) = lower getName ∧ (word line)[3]? = some 0

/-- What is left of the line where the url is looked for. -/
def urlPart (line : List UInt8) : List UInt8 :=
  (line.drop (min 15 (word line).length + 1)).dropWhile isspace

/-- The url starts at `buf[256]` or before, or there is white space behind it. -/
def UrlFits (line : List UInt8) : Prop :=
  line.length ≤ 256 + (urlPart line).length ∨ ∃ ch ∈ urlPart line, isspace ch = true

section Parse

variable {line : List UInt8}

/-- The method as it is copied. -/
def methodText (line : List UInt8) : List UInt8 := (word (inArray 512 line)).take 15

theorem length_eq_of_lower {a b : List UInt8} (h : lower a = lower b) : a.length = b.length := by
  have hlen := congrArg List.length h
  rwa [lower, lower, List.length_map, List.length_map] at hlen

/-- The array for the method is long enough to tell. -/
theorem takenForGet_take (t : List UInt8) : TakenForGet (t.take 15) ↔ TakenForGet t := by
  rw [TakenForGet, TakenForGet, List.take_take, List.getElem?_take_of_lt (by decide),
    Nat.min_eq_left (by decide)]
  refine or_congr ?_ Iff.rfl
  by_cases hlen : t.length ≤ 15
  · rw [List.take_of_length_le hlen]
  · rw [List.length_take]
    exact iff_of_false (by omega) (by omega)

/-- A line without white space, with zeros behind it. -/
theorem takenForGet_zeros {k : Nat} (hk : 3 < line.length + k) :
    TakenForGet (line ++ List.replicate k 0) ↔
      lower line = lower getName ∨ lower (line.take 3) = lower getName ∧ (line)[3]? = some 0 := by
  have hlong : ¬ (line ++ List.replicate k 0).length ≤ 3 := by
    rw [List.length_append, List.length_replicate]
    omega
  rw [TakenForGet, or_iff_right fun hand => hlong hand.1]
  have hshort : ∀ {text : List UInt8}, lower text = lower getName → text.length = 3 :=
    fun h => length_eq_of_lower h
  rcases Nat.lt_trichotomy line.length 3 with hlen | hlen | hlen
  · -- a zero stands where a letter would
    refine iff_of_false ?_ ?_
    · rintro ⟨hlower, -⟩
      have hletter := congrArg (·[line.length]?) hlower
      simp only [lower, List.getElem?_map, List.getElem?_take_of_lt hlen,
        List.getElem?_append_right (Nat.le_refl _), Nat.sub_self] at hletter
      rw [List.getElem?_replicate_of_lt (by omega)] at hletter
      have hnone : ∀ i < 3, (some (tolower 0) : Option UInt8) ≠ getName[i]?.map tolower := by decide
      exact hnone line.length hlen hletter
    · rintro (h | ⟨h, -⟩)
      · have := hshort h
        omega
      · have := hshort h
        rw [List.length_take] at this
        omega
  · have htake : (line ++ List.replicate k 0).take 3 = line := by rw [← hlen, List.take_left]
    have hzero : (line ++ List.replicate k 0)[3]? = some 0 := by
      rw [← hlen, List.getElem?_append_right (Nat.le_refl _), Nat.sub_self,
        List.getElem?_replicate_of_lt (by omega)]
    have hnone : (line)[3]? = none := List.getElem?_eq_none (by omega)
    rw [htake, hzero, hnone]
    simp
  · have hline : ¬ lower line = lower getName := by
      intro h
      have := hshort h
      omega
    rw [List.take_append_of_le_length (by omega), List.getElem?_append_left hlen,
      or_iff_right hline]

theorem takenForGet_iff (h : line.length ≤ 511) :
    TakenForGet (methodText line) ↔ IsGet line ∨ FalseGet line := by
  have hget : lower (getName.take 3) = lower getName := rfl
  rw [methodText, takenForGet_take, inArray]
  by_cases hspace : (word line).length < line.length
  · rw [word_append_zeros hspace, TakenForGet, IsGet, FalseGet, ← or_assoc]
    refine or_congr ?_ Iff.rfl
    refine ⟨?_, ?_⟩
    · rintro ⟨hlen, hlower⟩
      by_cases hthree : (word line).length = 3
      · rw [hthree, hget] at hlower
        exact .inl hlower
      · exact .inr ⟨by omega, hspace, hlower⟩
    · rintro (hlower | ⟨hlen, -, hlower⟩)
      · have hthree : (word line).length = 3 := length_eq_of_lower hlower
        rw [hthree, hget]
        exact ⟨Nat.le_refl 3, hlower⟩
      · exact ⟨by omega, hlower⟩
  · rw [word_append_zeros_all hspace, IsGet, FalseGet, word_eq_self hspace,
      takenForGet_zeros (by omega)]
    exact or_congr Iff.rfl ⟨.inr, fun hor => hor.resolve_left fun hand => by omega⟩

theorem length_methodText (h : line.length ≤ 511) :
    (methodText line).length
      = if (word line).length < line.length then min 15 (word line).length else 15 := by
  rw [methodText, List.length_take, inArray]
  split
  · next hspace => rw [word_append_zeros hspace]
  · next hspace =>
    rw [word_append_zeros_all hspace, List.length_append, List.length_replicate]
    omega

/-- Where the url is looked for, the rest of the line and of the buffer follow. -/
theorem dropWhile_methodText (h : line.length ≤ 511) :
    ∃ k, ((inArray 512 line).drop ((methodText line).length + 1)).dropWhile isspace
        = urlPart line ++ List.replicate k 0 ∧ 0 < k ∧
      (255 < (urlPart line).length + k ↔ line.length ≤ 256 + (urlPart line).length) := by
  have hlen := length_methodText h
  have hle := length_word_le line
  by_cases hline : (methodText line).length + 1 ≤ line.length
  · have hmin : (methodText line).length = min 15 (word line).length := by
      split at hlen
      · exact hlen
      · omega
    refine ⟨512 - line.length, ?_, by omega, by omega⟩
    rw [inArray, List.drop_append_of_le_length hline, dropWhile_append_zeros, hmin]
    rfl
  · -- the line is shorter than the array for the method
    have hnone : ¬ (word line).length < line.length := by
      intro hspace
      rw [if_pos hspace] at hlen
      omega
    rw [if_neg hnone] at hlen
    have hurl : urlPart line = [] := by
      rw [urlPart, List.drop_eq_nil_of_le (by omega)]
      rfl
    refine ⟨496, ?_, by omega, by rw [hurl, List.length_nil]; omega⟩
    rw [hurl, inArray, List.drop_append, List.drop_eq_nil_of_le (by omega), List.drop_replicate,
      dropWhile_append_zeros, hlen]
    congr 2
    omega

theorem drop_of_dropWhile {buf : List UInt8} (i : Nat) :
    buf.drop (i + 1 + ((buf.drop (i + 1)).length - ((buf.drop (i + 1)).dropWhile isspace).length))
      = (buf.drop (i + 1)).dropWhile isspace := by
  rw [← List.drop_drop]
  exact (List.suffix_iff_eq_drop.mp (List.dropWhile_suffix isspace)).symm

/-- The url can be copied from the rest of the buffer exactly if it fits. -/
theorem urlFits_iff {k : Nat} (hk : 0 < k)
    (hroom : 255 < (urlPart line).length + k ↔ line.length ≤ 256 + (urlPart line).length) :
    (255 < (word (urlPart line ++ List.replicate k 0)).length ∨
      (word (urlPart line ++ List.replicate k 0)).length
        < (urlPart line ++ List.replicate k 0).length) ↔ UrlFits line := by
  rw [UrlFits, ← length_word_lt_iff, ← hroom, List.length_append, List.length_replicate]
  by_cases hspace : (word (urlPart line)).length < (urlPart line).length
  · rw [word_append_zeros hspace]
    exact iff_of_true (.inr (by omega)) (.inr hspace)
  · rw [word_append_zeros_all hspace, List.length_append, List.length_replicate]
    omega

theorem url_zeros {u : List UInt8} (k : Nat) :
    inArray 256 ((word (u ++ List.replicate k 0)).take 255)
      = inArray 256 ((word u).take 255) := by
  by_cases hspace : (word u).length < u.length
  · rw [word_append_zeros hspace]
  · rw [word_append_zeros_all hspace, word_eq_self hspace, List.take_append, List.take_replicate]
    exact inArray_zeros (by rw [List.length_take]; omega)

theorem parseUrl_eq (h : line.length ≤ 511) :
    (UrlFits line → parseUrl (inArray 512 line) (methodText line).length
        = .ok (inArray 256 ((word (urlPart line)).take 255))) ∧
      (¬ UrlFits line → parseUrl (inArray 512 line) (methodText line).length = .error .read) := by
  obtain ⟨k, htail, hk, hroom⟩ := dropWhile_methodText h
  have hfits := urlFits_iff hk hroom
  have hdrop := @drop_of_dropWhile (inArray 512 line) (methodText line).length
  have hskip := skipBlanks_eq ((inArray 512 line).drop ((methodText line).length + 1))
    (methodText line).length
  have hne : urlPart line ++ List.replicate k 0 ≠ [] := by
    apply List.append_ne_nil_of_right_ne_nil
    rw [Ne, List.replicate_eq_nil_iff]
    omega
  rw [htail] at hdrop hskip
  rw [if_neg hne] at hskip
  refine ⟨?_, ?_⟩
  · intro hurl
    obtain ⟨j', hcopy, -, hstore⟩ := copyWord_cleared (show 255 < 256 by decide) hdrop
      (hfits.mpr hurl)
    rw [parseUrl, bind_of_ok hskip, bind_of_ok hcopy]
    refine hstore.trans ?_
    rw [url_zeros]
  · intro hurl
    rw [parseUrl, bind_of_ok hskip,
      copyWord_eq _ 255 _ 0 _ hdrop (by rw [List.length_replicate]; omega),
      if_neg (mt hfits.mp hurl)]
    rfl

/-- The parse of a line in the cleared buffer. -/
theorem parseRequestLine_eq (h : line.length ≤ 511) :
    (¬ TakenForGet (methodText line) → parseRequestLine (inArray 512 line)
        = .ok ⟨inArray 16 (methodText line), false, List.replicate 256 0⟩) ∧
      (TakenForGet (methodText line) → parseRequestLine (inArray 512 line)
        = parseUrl (inArray 512 line) (methodText line).length >>= fun url =>
            .ok ⟨inArray 16 (methodText line), true, url⟩) := by
  have hle := length_word_le (inArray 512 line)
  have hlen := length_inArray (show line.length ≤ 512 by omega)
  obtain ⟨j, hcopy, hj, hstore⟩ := copyWord_cleared (show 15 < 16 by decide)
    (show (inArray 512 line).drop 0 = inArray 512 line from rfl) (by omega)
  rw [Nat.zero_add] at hj
  have hcompare := strncasecmp_get (show (methodText line).length ≤ 15 by
    rw [methodText, List.length_take]
    omega)
  refine ⟨?_, ?_⟩
  · intro htaken
    rw [parseRequestLine, bind_of_ok hcopy]
    show (store _ _ _ >>= _) = _
    rw [bind_of_ok hstore]
    exact if_neg (mt hcompare.mp htaken)
  · intro htaken
    rw [parseRequestLine, bind_of_ok hcopy, hj]
    show (store _ _ _ >>= _) = _
    rw [bind_of_ok hstore]
    exact if_pos (hcompare.mpr htaken)

/-- Behind the first word there is nothing or white space. -/
theorem drop_word (line : List UInt8) :
    (line.drop (word line).length).dropWhile isspace
      = (line.drop ((word line).length + 1)).dropWhile isspace := by
  induction line with
  | nil => rfl
  | cons ch line ih =>
      cases hspace : isspace ch with
      | true =>
          rw [word_cons_space hspace]
          exact List.dropWhile_cons_of_pos hspace
      | false =>
          rw [word_cons hspace]
          exact ih

theorem urlText_eq (hget : IsGet line) : urlText line = (word (urlPart line)).take 255 := by
  have hthree : (word line).length = 3 := length_eq_of_lower hget
  rw [urlText, urlPart, drop_word, hthree]
  rfl

/-- When the parse of a line in the cleared buffer does what it should. -/
theorem parsedRight_iff (h : line.length ≤ 511) :
    (∃ r, parseRequestLine (inArray 512 line) = .ok r ∧ ParsedRight line r) ↔
      (IsGet line → UrlFits line) ∧ (¬ IsGet line → ¬ FalseGet line) := by
  obtain ⟨hother, hget⟩ := parseRequestLine_eq h
  obtain ⟨hfits, hoverrun⟩ := parseUrl_eq h
  have htaken := takenForGet_iff h
  by_cases hbranch : TakenForGet (methodText line)
  · by_cases hurl : UrlFits line
    · rw [hget hbranch, bind_of_ok (hfits hurl)]
      refine ⟨?_, ?_⟩
      · rintro ⟨r, hr, hright⟩
        cases hr
        have hisGet := hright.get.mp rfl
        exact ⟨fun _ => hurl, fun hnot => absurd hisGet hnot⟩
      · rintro ⟨-, hfalse⟩
        have hisGet : IsGet line := by
          by_contra hnot
          rcases htaken.mp hbranch with hyes | hno
          · exact hnot hyes
          · exact hfalse hnot hno
        exact ⟨_, rfl, ⟨fun _ => hisGet, fun _ => rfl⟩, fun _ => by rw [urlText_eq hisGet]⟩
    · rw [hget hbranch, hoverrun hurl]
      refine iff_of_false (by rintro ⟨r, hr, -⟩; cases hr) ?_
      rintro ⟨hyes, hno⟩
      rcases htaken.mp hbranch with hisGet | hfalse
      · exact hurl (hyes hisGet)
      · by_cases hisGet : IsGet line
        · exact hurl (hyes hisGet)
        · exact hno hisGet hfalse
  · rw [hother hbranch]
    have hnot : ¬ IsGet line := fun hisGet => hbranch (htaken.mpr (.inl hisGet))
    refine iff_of_true ⟨_, rfl, ?_, ?_⟩ ⟨fun hisGet => absurd hisGet hnot, fun _ hfalse => ?_⟩
    · exact iff_of_false Bool.false_ne_true hnot
    · exact fun htrue => absurd htrue Bool.false_ne_true
    · exact hbranch (htaken.mpr (.inr hfalse))

end Parse

-- ============================================================================
-- The request line of a socket
-- ============================================================================

section Socket

variable {reads rest : List Read} {n : Nat} {buf text : List UInt8}

/-- What `get_line` leaves in the cleared buffer. -/
theorem getLine_inArray
    (h : getLine reads (List.replicate 512 0) 512 = .ok (.returned n buf rest)) :
    n ≤ 511 ∧ (buf.take n).length = n ∧ buf = inArray 512 (buf.take n) := by
  rcases @getLineLoop_cases 512 reads 0 (List.replicate 512 0) (by decide)
    (by rw [List.length_replicate]; decide) with ⟨hloop, -⟩ | ⟨n', buf', rest', hloop, hresult⟩
  · rw [getLine, hloop] at h
    cases h
  · rw [getLine, hloop, Except.ok.injEq, Line.returned.injEq] at h
    obtain ⟨rfl, rfl, rfl⟩ := h
    have hroom := hresult.room
    obtain ⟨taken, -, hn, htake⟩ := hresult.text
    have hlen : (buf'.take n').length = n' := by
      rw [htake, List.take_zero, List.nil_append]
      omega
    have hlast : buf'[n']? = (List.replicate 512 (0 : UInt8))[n']? := by
      rcases hresult.last with ⟨-, hnul⟩ | ⟨-, hold⟩
      · rw [hnul, List.getElem?_replicate_of_lt (by omega)]
      · exact hold
    refine ⟨by omega, hlen, List.ext_getElem? fun i => ?_⟩
    rcases Nat.lt_trichotomy i n' with hi | hi | hi
    · rw [inArray, List.getElem?_append_left (by omega), List.getElem?_take_of_lt hi]
    · rw [inArray, List.getElem?_append_right (by omega), hi, hlast, hlen, List.getElem?_replicate,
        List.getElem?_replicate, if_pos (by omega), if_pos (by omega)]
    · rw [inArray, List.getElem?_append_right (by omega), hresult.behind i hi, hlen,
        List.getElem?_replicate, List.getElem?_replicate]
      split
      · next hlt => rw [if_pos (by omega)]
      · next hge => rw [if_neg (by omega)]

/-- For every line that `get_line` returns, the parse reads only `buf[0..511]`, takes the GET branch
    exactly for GET and finds the url exactly if, for GET, the url starts at `buf[256]` or before or
    has white space behind it, and, for any other method, it is not taken for GET. -/
theorem parseRequestLine_right_iff
    (h : getLine reads (List.replicate 512 0) 512 = .ok (.returned n buf rest)) :
    (∃ r, parseRequestLine buf = .ok r ∧ ParsedRight (buf.take n) r) ↔
      (IsGet (buf.take n) → UrlFits (buf.take n)) ∧
        (¬ IsGet (buf.take n) → ¬ FalseGet (buf.take n)) := by
  obtain ⟨hn, hlen, hbuf⟩ := getLine_inArray h
  have hiff := parsedRight_iff (show (buf.take n).length ≤ 511 by omega)
  rwa [← hbuf] at hiff

/-- A line of characters and a newline. -/
theorem getLine_cleared (hcr : cr ∉ text) (hlf : lf ∉ text) (hlen : text.length ≤ 510) :
    getLine (text.map .byte ++ .byte lf :: rest) (List.replicate 512 0) 512
      = .ok (.returned text.length (inArray 512 text) rest) := by
  have hsize : ((512 : Int)) ≤ (List.replicate 512 (0 : UInt8)).length := by
    rw [List.length_replicate]
    decide
  rw [getLine, getLineLoop_text text 0 _ hcr hlf (by omega) hsize, splice_cleared, Nat.zero_add,
    getLineLoop_lf (by omega) (by rw [length_inArray (by omega)]; omega), set_terminator (by omega)]

end Socket

theorem parseRequestLine_right_get :
    getLine ([71, 69, 84, 32, 47, 97].map .byte ++ [.byte lf]) (List.replicate 512 0) 512
        = .ok (.returned 6 (inArray 512 [71, 69, 84, 32, 47, 97]) []) ∧
      ∃ r, parseRequestLine (inArray 512 [71, 69, 84, 32, 47, 97]) = .ok r ∧
        ParsedRight ((inArray 512 [71, 69, 84, 32, 47, 97]).take 6) r := by
  have hline : getLine ([71, 69, 84, 32, 47, 97].map .byte ++ [.byte lf]) (List.replicate 512 0) 512
      = .ok (.returned 6 (inArray 512 [71, 69, 84, 32, 47, 97]) []) :=
    getLine_cleared (by decide) (by decide) (by decide)
  refine ⟨hline, (parseRequestLine_right_iff hline).mpr ⟨fun _ => .inl ?_, fun hnot => ?_⟩⟩
  · exact Nat.le_add_right_of_le (by decide)
  · exact absurd rfl hnot

/-- The line `G /a` is taken for GET. -/
theorem parseRequestLine_g :
    getLine ([71, 32, 47, 97].map .byte ++ [.byte lf]) (List.replicate 512 0) 512
        = .ok (.returned 4 (inArray 512 [71, 32, 47, 97]) []) ∧
      ¬ ∃ r, parseRequestLine (inArray 512 [71, 32, 47, 97]) = .ok r ∧
        ParsedRight ((inArray 512 [71, 32, 47, 97]).take 4) r := by
  refine ⟨getLine_cleared (by decide) (by decide) (by decide), ?_⟩
  show ¬ ∃ r, _ ∧ ParsedRight [71, 32, 47, 97] r
  rw [parsedRight_iff (by decide)]
  rintro ⟨-, hfalse⟩
  exact hfalse (fun h => absurd (length_eq_of_lower h) (by decide))
    (.inl ⟨by decide, by decide, rfl⟩)

end LinuxCodeDemos.MiniHttp

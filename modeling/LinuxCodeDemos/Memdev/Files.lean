/-
  LinuxCodeDemos.Memdev.Files

  The driver as two files of a fixed size.

  What the devices should hold is said by the log of all writes: the last byte
  written to an offset, and zero where nothing was written (`lastWritten`).  `Files`
  ties a state of the driver to the log: the memory of each device is what was
  written last, and the open files are on a device and at a position in it.  Every
  call keeps it and does to the files what `Meets` says (`call_does`), so this holds
  after every sequence of calls (`memdev_two_files`).
-/

import LinuxCodeDemos.Lib.Run
import LinuxCodeDemos.Memdev.Driver

namespace LinuxCodeDemos.Memdev

open Lib

-- ============================================================================
-- The log
-- ============================================================================

/-- Bytes written to a device from an offset on. -/
structure Write where
  minor : Nat
  start : Nat
  bytes : List UInt8
  deriving DecidableEq, Repr

def Write.byte? (w : Write) (minor off : Nat) : Option UInt8 :=
  if w.minor = minor ∧ w.start ≤ off then w.bytes[off - w.start]? else none

/-- The last byte written at an offset of a device; the newest write comes first. -/
def lastWritten : List Write → Nat → Nat → UInt8
  | [], _, _ => 0
  | w :: older, minor, off => (w.byte? minor off).getD (lastWritten older minor off)

/-- The position of an open file. -/
def File.pos (f : File) : Nat := f.fPos.toInt.toNat

/-- What a call writes: as many bytes as it reports. -/
def wrote (d : Driver) (c : Call) (reply : Reply) : List Write :=
  match c with
  | .write fd buf _ =>
      match d.files[fd]? with
      | some f => [{ minor := f.privateData, start := f.pos, bytes := buf.take reply.ret.toNat }]
      | none => []
  | _ => []

/-- A call, with the log of the writes before it. -/
def loggedCall (abi : Abi) (s : Driver × List Write) (c : Call) :
    Except Fault (Driver × List Write) := do
  let (d, reply) ← call abi s.1 c
  .ok (d, wrote s.1 c reply ++ s.2)

-- ============================================================================
-- What the calls are for
-- ============================================================================

/-- A request below the limit of the kernel's file layer, whose copy succeeds. -/
def Call.Sound : Call → Prop
  | .read _ size left => size < 2 ^ 31 ∧ left = 0
  | .write _ buf left => buf.length < 2 ^ 31 ∧ left = 0
  | _ => True

instance : (c : Call) → Decidable c.Sound
  | .open _ => inferInstanceAs (Decidable True)
  | .read .. => inferInstanceAs (Decidable (_ ∧ _))
  | .write .. => inferInstanceAs (Decidable (_ ∧ _))
  | .llseek .. => inferInstanceAs (Decidable True)

/-- The bytes that a request of `size` bytes transfers at position `p`. -/
def transferred (size p : Nat) : Nat := min size (memdevSize - p)

/-- Where `llseek` should go. -/
def target (f : File) (offset : Int64) (whence : Int32) : Option Int :=
  if whence = 0 then some offset.toInt
  else if whence = 1 then some (f.pos + offset.toInt)
  else if whence = 2 then some ((memdevSize - 1 : Nat) + offset.toInt)
  else none

/-- The files are the old ones, except that file `fd` is at another position. -/
def Moved (d d' : Driver) (fd : Nat) (f : File) (pos : Nat) : Prop :=
  d'.files = d.files.set fd { f with fPos := Int64.ofNat pos }

/-- A call on a descriptor: an error if it is not open, else what `P` says of its file. -/
def OnFile (d : Driver) (fd : Nat) (d' : Driver) (reply : Reply) (P : File → Prop) : Prop :=
  match d.files[fd]? with
  | none => reply.ret = -ebadf ∧ d' = d
  | some f => P f

/-- What a call does to two files of a fixed size. -/
def Meets (log : List Write) (d : Driver) (c : Call) (d' : Driver) (reply : Reply) : Prop :=
  match c with
  | .open num =>
      (num < memdevNrDevs → reply.ret = d.files.length ∧ d'.memDevp = d.memDevp ∧
        d'.files = d.files ++ [{ privateData := num, fPos := 0 }]) ∧
      (memdevNrDevs ≤ num → reply.ret = -enodev ∧ d' = d)
  | .read fd size _ => OnFile d fd d' reply fun f =>
      reply.ret = transferred size f.pos ∧
      reply.bytes = (List.range (transferred size f.pos)).map
        (fun j => lastWritten log f.privateData (f.pos + j)) ∧
      d'.memDevp = d.memDevp ∧ Moved d d' fd f (f.pos + transferred size f.pos)
  | .write fd buf _ => OnFile d fd d' reply fun f =>
      reply.ret = transferred buf.length f.pos ∧
      (∀ minor, minor ≠ f.privateData → d'.memDevp[minor]? = d.memDevp[minor]?) ∧
      Moved d d' fd f (f.pos + transferred buf.length f.pos)
  | .llseek fd offset whence => OnFile d fd d' reply fun f =>
      (∀ pos : Nat, target f offset whence = some (pos : Int) → pos ≤ memdevSize →
        reply.ret = pos ∧ d'.memDevp = d.memDevp ∧ Moved d d' fd f pos) ∧
      ((∀ pos : Nat, target f offset whence = some (pos : Int) → memdevSize < pos) →
        reply.ret = -einval ∧ d' = d)

/-- A state of the driver after the writes of the log. -/
structure Files (d : Driver) (log : List Write) : Prop where
  count : d.memDevp.length = memdevNrDevs
  size : ∀ data ∈ d.memDevp, data.length = memdevSize
  content : ∀ minor data, d.memDevp[minor]? = some data →
    ∀ off < memdevSize, data[off]? = some (lastWritten log minor off)
  minor : ∀ f ∈ d.files, f.privateData < memdevNrDevs
  position : ∀ f ∈ d.files, 0 ≤ f.fPos.toInt ∧ f.fPos.toInt ≤ memdevSize

theorem files_init : Files memdevInit [] where
  count := List.length_replicate
  size := by
    intro data hdata
    rw [List.eq_of_mem_replicate hdata, List.length_replicate]
  content := by
    intro minor data hdata off hoff
    rw [List.eq_of_mem_replicate (List.mem_of_getElem? hdata), List.getElem?_replicate,
      if_pos hoff]
    rfl
  minor := by
    intro f hf
    cases hf
  position := by
    intro f hf
    cases hf

-- ============================================================================
-- One call
-- ============================================================================

section Positions

variable {p size : Nat}

theorem toInt_ofNat_pos (hp : p ≤ memdevSize) : (Int64.ofNat p).toInt = p :=
  Int64.toInt_ofNat_of_lt (by
    rw [memdevSize] at hp
    omega)

/-- A position that the driver may have is one of a device. -/
theorem File.fPos_eq {f : File} (h : 0 ≤ f.fPos.toInt ∧ f.fPos.toInt ≤ memdevSize) :
    f.fPos = Int64.ofNat f.pos ∧ f.pos ≤ memdevSize := by
  have hle : f.pos ≤ memdevSize := by
    rw [File.pos]
    omega
  refine ⟨?_, hle⟩
  rw [← Int64.toInt_inj, toInt_ofNat_pos hle, File.pos, Int.toNat_of_nonneg h.1]

theorem toLong_ofNat (abi : Abi) (hp : p ≤ memdevSize) : toLong abi (Int64.ofNat p) = p := by
  rw [memdevSize] at hp
  have hmod : (p : Int) % 2 ^ abi.longBits = p := by
    apply Int.emod_eq_of_lt (Int.natCast_nonneg p)
    cases abi
    · show (p : Int) < 2 ^ 32
      omega
    · show (p : Int) < 2 ^ 64
      omega
  rw [toLong, toInt_ofNat_pos hp, hmod, Int.toNat_natCast]

theorem clamp_eq (h : size < 2 ^ 31) : clamp size p = transferred size p := by
  rw [clamp, transferred, Nat.mod_eq_of_lt (by omega)]
  split <;> omega

theorem transferred_le (hp : p ≤ memdevSize) (size : Nat) :
    p + transferred size p ≤ memdevSize := by
  rw [transferred]
  omega

end Positions

section Transfers

variable (abi : Abi) {data : List UInt8} {p : Nat}

theorem memRead_eq (hdata : data.length = memdevSize) (hp : p ≤ memdevSize) {size : Nat}
    (hsize : size < 2 ^ 31) :
    memRead abi data (Int64.ofNat p) size 0 =
      .ok ({ ret := transferred size p, bytes := (data.drop p).take (transferred size p) },
        Int64.ofNat (p + transferred size p)) := by
  have hle := transferred_le hp size
  simp only [memRead, toLong_ofNat abi hp, clamp_eq hsize]
  split
  · next hend =>
    have hzero : transferred size p = 0 := by omega
    rw [hzero, List.take_zero]
    rfl
  · rw [loadBytes_of_le (by omega), Int64.ofNat_add]
    rfl

theorem memWrite_eq (hdata : data.length = memdevSize) (hp : p ≤ memdevSize) {buf : List UInt8}
    (hsize : buf.length < 2 ^ 31) :
    memWrite abi data (Int64.ofNat p) buf 0 =
      .ok ({ ret := transferred buf.length p },
        splice data p (buf.take (transferred buf.length p)),
        Int64.ofNat (p + transferred buf.length p)) := by
  have hle := transferred_le hp buf.length
  have hcopy : copyFromUser buf (transferred buf.length p) 0
      = buf.take (transferred buf.length p) := by
    rw [copyFromUser, Nat.zero_min, List.replicate_zero, List.append_nil, Nat.sub_zero]
  simp only [memWrite, toLong_ofNat abi hp, clamp_eq hsize, hcopy]
  split
  · next hend =>
    have hzero : transferred buf.length p = 0 := by omega
    rw [hzero, List.take_zero, splice_nil]
    rfl
  · rw [store_of_le (by rw [List.length_take]; omega), Int64.ofNat_add]
    rfl

end Transfers

section Seeks

variable {f : File} {offset : Int64} {whence : Int32}

/-- The sum of a position and an offset wraps only to something negative. -/
theorem toInt_ofNat_add {p : Nat} (hp : p ≤ memdevSize) (offset : Int64) {pos : Nat}
    (hpos : pos ≤ memdevSize) :
    (Int64.ofNat p + offset).toInt = pos ↔ (p : Int) + offset.toInt = pos := by
  have hlow := offset.le_toInt
  have hhigh := offset.toInt_lt
  rw [Int64.toInt_add, toInt_ofNat_pos hp, Int.bmod_def]
  rw [memdevSize] at hp hpos
  refine ⟨?_, ?_⟩
  · intro h
    split at h <;> omega
  · intro h
    split <;> omega

theorem newpos_eq_some (hp : f.fPos = Int64.ofNat f.pos ∧ f.pos ≤ memdevSize) {q : Int64}
    (hq : newpos f.fPos offset whence = some q) {pos : Nat} (hpos : pos ≤ memdevSize) :
    q.toInt = pos ↔ target f offset whence = some (pos : Int) := by
  simp only [newpos] at hq
  simp only [target]
  split at hq
  · next hset =>
    cases hq
    rw [if_pos hset, Option.some.injEq]
  split at hq
  · next hset hcur =>
    cases hq
    rw [if_neg hset, if_pos hcur, Option.some.injEq, hp.1, toInt_ofNat_add hp.2 offset hpos]
  split at hq
  · next hset hcur hend =>
    cases hq
    rw [if_neg hset, if_neg hcur, if_pos hend, Option.some.injEq,
      toInt_ofNat_add (Nat.sub_le _ _) offset hpos]
  · cases hq

theorem target_eq_none (hq : newpos f.fPos offset whence = none) :
    target f offset whence = none := by
  simp only [newpos] at hq
  simp only [target]
  split at hq
  · cases hq
  split at hq
  · cases hq
  split at hq
  · cases hq
  · next hset hcur hend => rw [if_neg hset, if_neg hcur, if_neg hend]

/-- `mem_llseek` goes where it should, if that is a position of the device. -/
theorem memLlseek_of_target (hp : f.fPos = Int64.ofNat f.pos ∧ f.pos ≤ memdevSize) {pos : Nat}
    (htarget : target f offset whence = some (pos : Int)) (hpos : pos ≤ memdevSize) :
    memLlseek f.fPos offset whence = ({ ret := pos }, Int64.ofNat pos) := by
  rw [memLlseek]
  cases hq : newpos f.fPos offset whence with
  | none =>
      rw [target_eq_none hq] at htarget
      cases htarget
  | some q =>
      have hpos' := (newpos_eq_some hp hq hpos).mpr htarget
      have hq' : q = Int64.ofNat pos := by
        rw [← Int64.toInt_inj, hpos', toInt_ofNat_pos hpos]
      have hin : ¬ (q < 0 ∨ Int64.ofNat memdevSize < q) := by
        rw [Int64.lt_iff_toInt_lt, Int64.lt_iff_toInt_lt, hpos', toInt_ofNat_pos (Nat.le_refl _)]
        show ¬ ((pos : Int) < 0 ∨ (memdevSize : Int) < pos)
        omega
      show (if q < 0 ∨ Int64.ofNat memdevSize < q then _ else _) = _
      rw [if_neg hin, hpos', hq']

/-- Otherwise it is rejected. -/
theorem memLlseek_rejected (hp : f.fPos = Int64.ofNat f.pos ∧ f.pos ≤ memdevSize)
    (htarget : ∀ pos : Nat, target f offset whence = some (pos : Int) → memdevSize < pos) :
    memLlseek f.fPos offset whence = ({ ret := -einval }, f.fPos) := by
  rw [memLlseek]
  cases hq : newpos f.fPos offset whence with
  | none => rfl
  | some q =>
      have hout : q < 0 ∨ Int64.ofNat memdevSize < q := by
        rw [Int64.lt_iff_toInt_lt, Int64.lt_iff_toInt_lt, toInt_ofNat_pos (Nat.le_refl _)]
        show q.toInt < 0 ∨ (memdevSize : Int) < q.toInt
        by_contra hin
        obtain ⟨pos, hpos⟩ := Int.eq_ofNat_of_zero_le (show 0 ≤ q.toInt by omega)
        have hle : pos ≤ memdevSize := by omega
        have hlt := htarget pos ((newpos_eq_some hp hq hle).mp hpos)
        omega
      simp only [if_pos hout]

end Seeks

section Calls

variable {abi : Abi} {d : Driver} {log : List Write}

/-- The device of an open file. -/
theorem Files.device (h : Files d log) {f : File} (hf : f ∈ d.files) :
    ∃ data, load d.memDevp f.privateData = .ok data ∧ d.memDevp[f.privateData]? = some data ∧
      data.length = memdevSize := by
  have hlt : f.privateData < d.memDevp.length := by
    rw [h.count]
    exact h.minor f hf
  exact ⟨_, load_of_lt hlt, List.getElem?_eq_getElem hlt, h.size _ (List.getElem_mem hlt)⟩

/-- A file at another position of its device. -/
theorem Files.move (h : Files d log) {f : File} (hf : f ∈ d.files) {fd pos : Nat}
    (hpos : pos ≤ memdevSize) :
    Files { d with files := d.files.set fd { f with fPos := Int64.ofNat pos } } log := by
  refine ⟨h.count, h.size, h.content, ?_, ?_⟩
  · intro g hg
    rcases List.mem_or_eq_of_mem_set hg with hold | rfl
    · exact h.minor g hold
    · exact h.minor f hf
  · intro g hg
    rcases List.mem_or_eq_of_mem_set hg with hold | rfl
    · exact h.position g hold
    · show 0 ≤ (Int64.ofNat pos).toInt ∧ (Int64.ofNat pos).toInt ≤ memdevSize
      rw [toInt_ofNat_pos hpos]
      omega

/-- Bytes written to a device are the last ones written there. -/
theorem Files.written (h : Files d log) {minor start : Nat} {data bytes : List UInt8}
    (hdata : d.memDevp[minor]? = some data) (hfit : start + bytes.length ≤ memdevSize) :
    Files { d with memDevp := d.memDevp.set minor (splice data start bytes) }
      ({ minor, start, bytes } :: log) := by
  have hlen := h.size data (List.mem_of_getElem? hdata)
  refine ⟨?_, ?_, ?_, h.minor, h.position⟩
  · rw [← h.count]
    exact List.length_set
  · intro data' hdata'
    rcases List.mem_or_eq_of_mem_set hdata' with hold | rfl
    · exact h.size data' hold
    · rw [splice_length (by omega), hlen]
  · intro minor' data' hdata' off hoff
    rw [lastWritten, Write.byte?]
    by_cases hsame : minor = minor'
    · subst hsame
      have hnew : splice data start bytes = data' := by
        have hlt : minor < d.memDevp.length := (List.getElem?_eq_some_iff.mp hdata).1
        rw [List.getElem?_set_self hlt] at hdata'
        exact Option.some.inj hdata'
      rw [← hnew, splice_getElem? (by omega)]
      by_cases hin : start ≤ off ∧ off < start + bytes.length
      · rw [if_pos hin, if_pos ⟨rfl, hin.1⟩, List.getElem?_eq_getElem (by omega), Option.getD_some]
      · rw [if_neg hin, h.content minor data hdata off hoff]
        split
        · next hfrom =>
          have hpast : bytes.length ≤ off - start := by
            have hstart : start ≤ off := hfrom.2
            omega
          rw [List.getElem?_eq_none hpast, Option.getD_none]
        · rfl
    · rw [List.getElem?_set_ne hsame] at hdata'
      rw [if_neg (fun hin => hsame hin.1), Option.getD_none]
      exact h.content minor' data' hdata' off hoff

/-- The bytes at a position are the last ones written there. -/
theorem Files.read (h : Files d log) {minor p n : Nat} {data : List UInt8}
    (hdata : d.memDevp[minor]? = some data) (hfit : p + n ≤ memdevSize) :
    (data.drop p).take n = (List.range n).map fun j => lastWritten log minor (p + j) := by
  have hlen := h.size data (List.mem_of_getElem? hdata)
  apply List.ext_getElem?
  intro j
  rcases Nat.lt_or_ge j n with hlt | hge
  · rw [List.getElem?_take_of_lt hlt, List.getElem?_drop, List.getElem?_map,
      List.getElem?_range hlt, h.content minor data hdata (p + j) (by omega)]
    rfl
  · rw [List.getElem?_eq_none (by rw [List.length_take]; omega),
      List.getElem?_eq_none (by rw [List.length_map, List.length_range]; omega)]

/-- What one call does: its result, what it was for, and the files afterwards. -/
def Does (abi : Abi) (d : Driver) (log : List Write) (c : Call) : Prop :=
  ∃ d' reply, call abi d c = .ok (d', reply) ∧ Meets log d c d' reply ∧
    Files d' (wrote d c reply ++ log)

theorem open_does (h : Files d log) (num : Nat) : Does abi d log (.open num) := by
  simp only [Does, call, memOpen]
  by_cases hnum : memdevNrDevs ≤ num
  · rw [if_pos hnum]
    exact ⟨_, _, rfl, ⟨fun hlt => absurd hlt (Nat.not_lt.mpr hnum), fun _ => ⟨rfl, rfl⟩⟩, h⟩
  · rw [if_neg hnum]
    refine ⟨_, _, rfl, ⟨fun _ => ⟨rfl, rfl, rfl⟩, fun hge => absurd hge hnum⟩,
      ⟨h.count, h.size, h.content, ?_, ?_⟩⟩
    · intro f hf
      rcases List.mem_append.mp hf with hold | hnew
      · exact h.minor f hold
      · rw [List.mem_singleton.mp hnew]
        exact Nat.lt_of_not_le hnum
    · intro f hf
      rcases List.mem_append.mp hf with hold | hnew
      · exact h.position f hold
      · rw [List.mem_singleton.mp hnew]
        show 0 ≤ (0 : Int64).toInt ∧ (0 : Int64).toInt ≤ memdevSize
        decide

theorem read_does (h : Files d log) {fd size : Nat} (hsize : size < 2 ^ 31) :
    Does abi d log (.read fd size 0) := by
  cases hfd : d.files[fd]? with
  | none =>
      simp only [Does, call, Meets, OnFile, hfd]
      exact ⟨_, _, rfl, ⟨rfl, rfl⟩, h⟩
  | some f =>
      have hf := List.mem_of_getElem? hfd
      obtain ⟨hpos, hle⟩ := File.fPos_eq (h.position f hf)
      obtain ⟨data, hload, hdata, hlen⟩ := h.device hf
      have hfit := transferred_le hle size
      have hread := memRead_eq abi hlen hle hsize
      rw [← hpos] at hread
      simp only [Does, call, Meets, OnFile, hfd, hload, hread, Except.bind, bind]
      exact ⟨_, _, rfl, ⟨rfl, h.read hdata hfit, rfl, rfl⟩, h.move hf hfit⟩

theorem write_does (h : Files d log) {fd : Nat} {buf : List UInt8} (hsize : buf.length < 2 ^ 31) :
    Does abi d log (.write fd buf 0) := by
  cases hfd : d.files[fd]? with
  | none =>
      simp only [Does, call, Meets, OnFile, wrote, hfd]
      exact ⟨_, _, rfl, ⟨rfl, rfl⟩, h⟩
  | some f =>
      have hf := List.mem_of_getElem? hfd
      obtain ⟨hpos, hle⟩ := File.fPos_eq (h.position f hf)
      obtain ⟨data, hload, hdata, hlen⟩ := h.device hf
      have hfit := transferred_le hle buf.length
      have hbytes : f.pos + (buf.take (transferred buf.length f.pos)).length ≤ memdevSize := by
        rw [List.length_take]
        omega
      have hwrite := memWrite_eq abi hlen hle hsize
      rw [← hpos] at hwrite
      simp only [Does, call, Meets, OnFile, wrote, hfd, hload, hwrite, Except.bind, bind]
      exact ⟨_, _, rfl, ⟨rfl, fun minor hne => List.getElem?_set_ne hne.symm, rfl⟩,
        (h.written hdata hbytes).move hf hfit⟩

theorem llseek_does (h : Files d log) (fd : Nat) (offset : Int64) (whence : Int32) :
    Does abi d log (.llseek fd offset whence) := by
  cases hfd : d.files[fd]? with
  | none =>
      simp only [Does, call, Meets, OnFile, hfd]
      exact ⟨_, _, rfl, ⟨rfl, rfl⟩, h⟩
  | some f =>
      have hf := List.mem_of_getElem? hfd
      have hp := File.fPos_eq (h.position f hf)
      simp only [Does, call, Meets, OnFile, hfd]
      by_cases hin : ∃ pos : Nat, target f offset whence = some (pos : Int) ∧ pos ≤ memdevSize
      · obtain ⟨pos, htarget, hpos⟩ := hin
        rw [memLlseek_of_target hp htarget hpos]
        refine ⟨_, _, rfl, ⟨?_, fun hout => ?_⟩, h.move hf hpos⟩
        · intro pos' htarget' _
          rw [htarget, Option.some.injEq, Int.ofNat_inj] at htarget'
          rw [← htarget']
          exact ⟨rfl, rfl, rfl⟩
        · exact absurd (hout pos htarget) (Nat.not_lt.mpr hpos)
      · have hout : ∀ pos : Nat, target f offset whence = some (pos : Int) → memdevSize < pos := by
          intro pos htarget
          by_contra hle
          exact hin ⟨pos, htarget, Nat.le_of_not_lt hle⟩
        have hsame : d.files.set fd f = d.files := by
          obtain ⟨hlt, rfl⟩ := List.getElem?_eq_some_iff.mp hfd
          exact List.set_getElem_self hlt
        rw [memLlseek_rejected hp hout]
        refine ⟨d, { ret := -einval }, ?_, ⟨?_, fun _ => ⟨rfl, rfl⟩⟩, h⟩
        · show Except.ok (({ d with files := d.files.set fd f } : Driver), _) = _
          rw [hsame]
        · intro pos htarget hle
          exact absurd (hout pos htarget) (Nat.not_lt.mpr hle)

/-- One call on the two files. -/
theorem call_does (h : Files d log) {c : Call} (hc : c.Sound) : Does abi d log c := by
  cases c with
  | «open» num => exact open_does h num
  | read fd size left =>
      obtain ⟨hsize, rfl⟩ := hc
      exact read_does h hsize
  | write fd buf left =>
      obtain ⟨hsize, rfl⟩ := hc
      exact write_does h hsize
  | llseek fd offset whence => exact llseek_does h fd offset whence

end Calls

-- ============================================================================
-- Every sequence of calls
-- ============================================================================

theorem loggedCall_ends {abi : Abi} {s : Driver × List Write} {c : Call} (h : Files s.1 s.2)
    (hc : c.Sound) :
    Ends (fun s => Files s.1 s.2) (fun _ => False) (loggedCall abi s c) := by
  obtain ⟨d', reply, hcall, _, hfiles⟩ := call_does h hc
  rw [loggedCall, hcall]
  exact hfiles

/-- The driver is two independent files of a fixed size: no sequence of calls leaves its
    memory, the devices hold what was written last, the positions are in the device, and
    every further call does what it should. -/
theorem memdev_two_files (abi : Abi) (cs : List Call) (hcs : ∀ c ∈ cs, c.Sound) :
    ∃ d log, runSteps (loggedCall abi) (memdevInit, []) cs = .ok (d, log) ∧
      (∀ f ∈ d.files, 0 ≤ f.fPos.toInt ∧ f.fPos.toInt ≤ memdevSize) ∧
      (∀ minor < memdevNrDevs, d.memDevp[minor]?
        = some ((List.range memdevSize).map (lastWritten log minor))) ∧
      ∀ c : Call, c.Sound →
        ∃ d' reply, call abi d c = .ok (d', reply) ∧ Meets log d c d' reply := by
  have hends : Ends (fun s : Driver × List Write => Files s.1 s.2) (fun _ => False)
      (runSteps (loggedCall abi) (memdevInit, []) cs) :=
    runSteps_ends (fun s c h hc => loggedCall_ends h hc) files_init
      (alongRun_of_forall (fun c hc _ => hcs c hc) _)
  obtain ⟨⟨d, log⟩, hrun, hfiles⟩ := hends.exists_ok
  refine ⟨d, log, hrun, hfiles.position, ?_, ?_⟩
  · intro minor hminor
    have hlt : minor < d.memDevp.length := by
      rw [hfiles.count]
      exact hminor
    have hdata := List.getElem?_eq_getElem hlt
    have hread := hfiles.read hdata (show 0 + memdevSize ≤ memdevSize by omega)
    rw [List.drop_zero, List.take_of_length_le (by
      rw [hfiles.size _ (List.getElem_mem hlt)])] at hread
    rw [hdata, hread]
    simp only [Nat.zero_add]
  · intro c hc
    obtain ⟨d', reply, hcall, hmeets, _⟩ := call_does hfiles hc
    exact ⟨d', reply, hcall, hmeets⟩

/-- Both devices, and a read of the first from its start. -/
def rewind : List Call :=
  [.open 0, .open 1, .write 0 [1, 2, 3] 0, .write 1 [9, 8] 0, .llseek 0 0 0, .read 0 5000 0,
    .llseek 1 1 0, .write 1 [7] 0]

theorem memdev_two_files_rewind :
    (∀ c ∈ rewind, c.Sound) ∧
    ∃ d log, runSteps (loggedCall .lp64) (memdevInit, []) rewind = .ok (d, log) ∧
      (∀ f ∈ d.files, 0 ≤ f.fPos.toInt ∧ f.fPos.toInt ≤ memdevSize) ∧
      d.memDevp[0]? = some ((List.range memdevSize).map (lastWritten log 0)) ∧
      d.memDevp[1]? = some ((List.range memdevSize).map (lastWritten log 1)) := by
  have hsound : ∀ c ∈ rewind, c.Sound := by decide
  obtain ⟨d, log, hrun, hpos, hdata, _⟩ := memdev_two_files .lp64 rewind hsound
  exact ⟨hsound, d, log, hrun, hpos, hdata 0 (by decide), hdata 1 (by decide)⟩

end LinuxCodeDemos.Memdev

/-
  LinuxCodeDemos.NetInterface.Checksum

  The checksum of `ping.c`.

  `calc_cksum` adds the little-endian words of the buffer and foldSum the carries.  A byte that is
  left over is to be added too, but its shift and mask together make it zero: the result is the
  Internet checksum of the buffer without that byte (`calcCksum_eq`).

  `internetChecksum` is the checksum as RFC 1071 has it, over words in network order; what the code
  returns is stored by a little-endian host with the low byte first.
-/

import Mathlib.Algebra.Order.BigOperators.Group.List
import LinuxCodeDemos.Lib.OnesComplement
import LinuxCodeDemos.Lib.Run

namespace LinuxCodeDemos.NetInterface

open Lib

-- ============================================================================
-- `calc_cksum`
-- ============================================================================

/-- `*mid`, an `unsigned short`. -/
def loadShort (buff : List UInt8) (mid : Nat) : Except Fault Nat := do
  let bytes ← loadBytes buff mid 2
  .ok (le16 bytes 0)

/-- The loop of `calc_cksum`: `blen`, `mid` and `sum` behind it. -/
def cksumLoop (buff : List UInt8) : Nat → Nat → Nat → Except Fault (Nat × Nat × Nat)
  | blen + 2, mid, sum => do
      let word ← loadShort buff mid
      cksumLoop buff blen (mid + 2) ((sum + word) % 2 ^ 32)
  | blen, mid, sum => .ok (blen, mid, sum)

/-- The byte left over: `te = *(unsigned char*)mid`, `te = (te << 8) & 0xff`, `sum += te`. -/
def addLast (buff : List UInt8) (blen mid sum : Nat) : Except Fault Nat :=
  if blen = 1 then do
    let te ← load buff mid
    .ok ((sum + (te.toNat <<< 8 &&& 0xff)) % 2 ^ 32)
  else .ok sum

/-- `sum = (sum >> 16) + (sum & 0xffff)`, `sum += sum >> 16` and `~sum`. -/
def foldSum (sum : Nat) : Nat :=
  let sum := ((sum >>> 16) + (sum &&& 0xffff)) % 2 ^ 32
  let sum := (sum + (sum >>> 16)) % 2 ^ 32
  (2 ^ 32 - 1 - sum) % 2 ^ 16

/-- `calc_cksum`.  With a negative `len` nothing is added, as with none. -/
def calcCksum (buff : List UInt8) (len : Int) : Except Fault Nat := do
  let (blen, mid, sum) ← cksumLoop buff len.toNat 0 0
  let sum ← addLast buff blen mid sum
  .ok (foldSum sum)

-- ============================================================================
-- The checksum of RFC 1071
-- ============================================================================

/-- The words of an even number of bytes, in network order. -/
def networkWords : List UInt8 → List Nat
  | [] => []
  | [_] => []
  | high :: low :: rest => (256 * high.toNat + low.toNat) :: networkWords rest

/-- The buffer with a zero byte behind an odd number of bytes. -/
def padded (buff : List UInt8) : List UInt8 :=
  if buff.length % 2 = 0 then buff else buff ++ [0]

/-- The one's complement of the one's complement sum. -/
def internetChecksum (buff : List UInt8) : Nat := 65535 - onesSum (networkWords (padded buff))

/-- The words of a buffer as the host has them; a byte left over is none. -/
def hostWords : List UInt8 → List Nat
  | [] => []
  | [_] => []
  | low :: high :: rest => (low.toNat + 256 * high.toNat) :: hostWords rest

section Words

theorem hostWords_le {buff : List UInt8} : ∀ w ∈ hostWords buff, w ≤ 65535 := by
  fun_induction hostWords buff with
  | case1 => exact List.forall_mem_nil _
  | case2 last => exact List.forall_mem_nil _
  | case3 low high rest ih =>
      intro w hw
      have hlow := low.toNat_lt
      have hhigh := high.toNat_lt
      rcases List.mem_cons.mp hw with rfl | hw
      · omega
      · exact ih w hw

theorem networkWords_le {buff : List UInt8} : ∀ w ∈ networkWords buff, w ≤ 65535 := by
  fun_induction networkWords buff with
  | case1 => exact List.forall_mem_nil _
  | case2 last => exact List.forall_mem_nil _
  | case3 high low rest ih =>
      intro w hw
      have hlow := low.toNat_lt
      have hhigh := high.toNat_lt
      rcases List.mem_cons.mp hw with rfl | hw
      · omega
      · exact ih w hw

theorem length_hostWords (buff : List UInt8) : (hostWords buff).length = buff.length / 2 := by
  fun_induction hostWords buff with
  | case1 => rfl
  | case2 last =>
      rw [List.length_singleton]
      rfl
  | case3 low high rest ih =>
      rw [List.length_cons, ih, List.length_cons, List.length_cons]
      omega

theorem sum_hostWords_le (buff : List UInt8) :
    (hostWords buff).sum ≤ buff.length / 2 * 65535 := by
  rw [← length_hostWords]
  exact List.sum_le_card_nsmul _ _ hostWords_le

/-- In the two orders the sums differ by the factor 256. -/
theorem sum_hostWords_mod (buff : List UInt8) :
    (hostWords buff).sum % 65535 = 256 * (networkWords buff).sum % 65535 ∧
      ((hostWords buff).sum = 0 ↔ (networkWords buff).sum = 0) := by
  fun_induction hostWords buff with
  | case1 => exact ⟨rfl, Iff.rfl⟩
  | case2 last => exact ⟨rfl, Iff.rfl⟩
  | case3 low high rest ih =>
      rw [networkWords, List.sum_cons, List.sum_cons]
      omega

end Words

-- ============================================================================
-- What the code returns
-- ============================================================================

section Sums

theorem loadShort_append (before : List UInt8) (low high : UInt8) (rest : List UInt8) :
    loadShort (before ++ low :: high :: rest) before.length
      = .ok (low.toNat + 256 * high.toNat) := by
  have hlen : before.length + 2 ≤ (before ++ low :: high :: rest).length := by
    rw [List.length_append, List.length_cons, List.length_cons]
    omega
  rw [loadShort, loadBytes_of_le hlen, List.drop_left]
  rfl

/-- The loop adds the words from `mid` on and stops in front of a byte left over. -/
theorem cksumLoop_eq (rest : List UInt8) :
    ∀ (before : List UInt8) (sum : Nat), sum + (hostWords rest).sum < 2 ^ 32 →
      cksumLoop (before ++ rest) rest.length before.length sum
        = .ok (rest.length % 2, before.length + rest.length / 2 * 2,
            sum + (hostWords rest).sum) := by
  fun_induction hostWords rest with
  | case1 => exact fun before sum _ => rfl
  | case2 last =>
      intro before sum _
      rw [List.length_singleton, cksumLoop, List.sum_nil]
      · rfl
      · exact fun blen h => (by cases h)
  | case3 low high rest ih =>
      intro before sum hsum
      rw [List.sum_cons] at hsum ⊢
      have hbefore : (before ++ [low, high]).length = before.length + 2 := by
        rw [List.length_append]
        rfl
      have hrest := ih (before ++ [low, high]) (sum + (low.toNat + 256 * high.toNat)) (by omega)
      rw [hbefore, List.append_assoc, Nat.add_assoc sum] at hrest
      have hmid : before.length + 2 + rest.length / 2 * 2
          = before.length + (rest.length + 1 + 1) / 2 * 2 := by omega
      have hodd : rest.length % 2 = (rest.length + 1 + 1) % 2 := by omega
      rw [List.length_cons, List.length_cons, cksumLoop,
        bind_of_ok (loadShort_append before low high rest), Nat.mod_eq_of_lt (by omega),
        ← hmid, ← hodd]
      exact hrest

/-- The byte left over is shifted out of its mask. -/
theorem shifted_masked (n : Nat) : n <<< 8 &&& 0xff = 0 := by
  show n <<< 8 &&& (2 ^ 8 - 1) = 0
  rw [Nat.and_two_pow_sub_one_eq_mod, Nat.shiftLeft_eq, Nat.mul_mod_left]

/-- Two foldSum are enough for the sum of a buffer. -/
theorem foldSum_eq {sum : Nat} (h : sum ≤ 32767 * 65535) : foldSum sum = 65535 - canon sum := by
  have hmask : sum &&& 0xffff = sum % 65536 := Nat.and_two_pow_sub_one_eq_mod sum 16
  obtain ⟨once, honce⟩ : ∃ once, sum / 65536 + sum % 65536 = once := ⟨_, rfl⟩
  have hlt : once ≤ 65535 + 32767 := by omega
  have htwice : canon sum = once / 65536 + once % 65536 := by
    rw [← canon_fold sum, honce, ← canon_fold once, canon_of_le (by omega)]
  simp only [foldSum, hmask, Nat.shiftRight_eq_div_pow, Nat.reducePow, honce]
  rw [htwice]
  omega

/-- `calc_cksum` is the complement of the sum of the whole words. -/
theorem calcCksum_eq {buff : List UInt8} (h : buff.length ≤ 65535) :
    calcCksum buff buff.length = .ok (65535 - canon (hostWords buff).sum) := by
  have hsum : (hostWords buff).sum ≤ 32767 * 65535 :=
    (sum_hostWords_le buff).trans (Nat.mul_le_mul_right _ (by omega))
  obtain ⟨sum, hdef⟩ : ∃ sum, (hostWords buff).sum = sum := ⟨_, rfl⟩
  rw [hdef] at hsum ⊢
  have hloop := cksumLoop_eq buff [] 0 (by omega)
  rw [List.nil_append, List.length_nil, Nat.zero_add, Nat.zero_add, hdef] at hloop
  have hlast : addLast buff (buff.length % 2) (buff.length / 2 * 2) sum = .ok sum := by
    rw [addLast]
    split
    · have hlt : buff.length / 2 * 2 < buff.length := by omega
      rw [bind_of_ok (load_of_lt hlt), shifted_masked, Nat.add_zero, Nat.mod_eq_of_lt (by omega)]
    · rfl
  rw [calcCksum, Int.toNat_natCast, bind_of_ok hloop, ← foldSum_eq hsum]
  exact bind_of_ok hlast

end Sums

-- ============================================================================
-- The code against RFC 1071
-- ============================================================================

section Rfc

/-- The byte that is left over, 0 without one. -/
def lastByte (buff : List UInt8) : Nat :=
  if buff.length % 2 = 0 then 0 else (buff.getLastD 0).toNat

theorem padded_cons (high low : UInt8) (rest : List UInt8) :
    padded (high :: low :: rest) = high :: low :: padded rest := by
  rw [padded, padded, List.length_cons, List.length_cons, Nat.add_assoc, Nat.add_mod_right]
  split <;> rfl

theorem lastByte_cons (high low : UInt8) (rest : List UInt8) :
    lastByte (high :: low :: rest) = lastByte rest := by
  rw [lastByte, lastByte, List.length_cons, List.length_cons, Nat.add_assoc, Nat.add_mod_right]
  cases rest with
  | nil => rfl
  | cons byte rest => rfl

/-- The padding makes the byte left over the high byte of one more word. -/
theorem sum_networkWords_padded (buff : List UInt8) :
    (networkWords (padded buff)).sum = (networkWords buff).sum + 256 * lastByte buff := by
  fun_induction networkWords buff with
  | case1 => rfl
  | case2 last => exact Nat.add_comm _ _
  | case3 high low rest ih =>
      rw [padded_cons, lastByte_cons, networkWords, List.sum_cons, List.sum_cons, ih]
      exact (Nat.add_assoc _ _ _).symm

theorem internetChecksum_eq (buff : List UInt8) :
    internetChecksum buff = 65535 - canon ((networkWords buff).sum + 256 * lastByte buff) := by
  rw [internetChecksum, onesSum_eq networkWords_le, sum_networkWords_padded]

theorem lastByte_lt (buff : List UInt8) : lastByte buff < 256 := by
  rw [lastByte]
  split
  · omega
  · exact UInt8.toNat_lt _

theorem lastByte_eq_zero {buff : List UInt8} :
    lastByte buff = 0 ↔ buff.length % 2 = 0 ∨ buff.getLast? = some 0 := by
  rw [lastByte]
  split
  · next heven => simp only [heven, true_or]
  · next hodd =>
    cases hlast : buff.getLast? with
    | none =>
        rw [List.getLast?_eq_none_iff] at hlast
        rw [hlast] at hodd
        exact absurd rfl hodd
    | some last =>
        rw [List.getLastD_eq_getLast?, hlast, Option.getD_some, Option.some.injEq]
        refine ⟨?_, ?_⟩
        · exact fun hzero => .inr (UInt8.toNat_inj.mp hzero)
        · rintro (heven | rfl)
          · exact absurd heven hodd
          · rfl

/-- A byte can only be left out if it is zero. -/
theorem canon_add_byte {n byte : Nat} (h : byte < 256) :
    canon n = canon (n + 256 * byte) ↔ byte = 0 := by
  refine ⟨?_, ?_⟩
  · intro heq
    have hmod := congrArg (· % 65535) heq
    simp only [canon_mod] at hmod
    omega
  · intro hzero
    rw [hzero, Nat.mul_zero, Nat.add_zero]

/-- For every buffer of up to 65535 bytes, `calc_cksum` returns its Internet checksum, as the
    little-endian host stores it, exactly if no byte is left over or the one that is left over is
    zero. -/
theorem calcCksum_internetChecksum_iff (buff : List UInt8) (h : buff.length ≤ 65535) :
    calcCksum buff buff.length = .ok (swap16 (internetChecksum buff)) ↔
      buff.length % 2 = 0 ∨ buff.getLast? = some 0 := by
  obtain ⟨hmod, hzero⟩ := sum_hostWords_mod buff
  have hle := canon_le ((networkWords buff).sum + 256 * lastByte buff)
  rw [← lastByte_eq_zero, ← @canon_add_byte (networkWords buff).sum _ (lastByte_lt buff),
    calcCksum_eq h, internetChecksum_eq, canon_swap16 hmod hzero, Except.ok.injEq,
    swap16_complement hle]
  have hold := canon_le (networkWords buff).sum
  generalize canon ((networkWords buff).sum + 256 * lastByte buff) = new at *
  generalize canon (networkWords buff).sum = old at *
  rw [swap16, swap16]
  omega

theorem calcCksum_internetChecksum_padded :
    calcCksum [1, 2, 0] 3 = .ok (swap16 (internetChecksum [1, 2, 0])) :=
  (calcCksum_internetChecksum_iff [1, 2, 0] (by decide)).mpr (.inr rfl)

/-- The checksum of the one byte 1 is 0xfeff, 0xfffe on the host; the code returns 0xffff. -/
theorem calcCksum_one_byte :
    ¬ ∀ buff : List UInt8, buff.length ≤ 65535 →
        calcCksum buff buff.length = .ok (swap16 (internetChecksum buff)) := by
  intro h
  have hone : (65535 : Nat) = swap16 (internetChecksum [1]) := Except.ok.inj (h [1] (by decide))
  exact absurd hone (by decide)

end Rfc

end LinuxCodeDemos.NetInterface

/-
  LinuxCodeDemos.NetInterface.Packet

  The echo requests of `ping.c`.

  `icmp_packet` fills a packet with its checksum field zeroed, computes the checksum over it and
  puts that into the field.  The sum of the words then is a multiple of 65535 and not zero, so the
  checksum of the whole packet is 0; another word in one place moves the sum by the difference of
  the two words, and that is noticed unless they are congruent.
-/

import LinuxCodeDemos.NetInterface.Checksum

namespace LinuxCodeDemos.NetInterface

open Lib

-- ============================================================================
-- `icmp_packet`
-- ============================================================================

/-- `icmp->icmp_cksum = calc_cksum(buff, len)`. -/
def setCksum (buff : List UInt8) (len : Int) : Except Fault (List UInt8) := do
  let cksum ← calcCksum buff len
  store buff 2 (bytes16 cksum)

/-- `icmp_packet`; `tval` are the bytes that `gettimeofday` writes. -/
def icmpPacket (buff : List UInt8) (len id seq : Int) (tval : List UInt8) :
    Except Fault (List UInt8) := do
  let buff ← store buff 0 [8]
  let buff ← store buff 1 [0]
  let buff ← store buff 2 (bytes16 0)
  let buff ← store buff 4 (bytes16 (id % 2 ^ 16).toNat)
  let buff ← store buff 6 (bytes16 (seq % 2 ^ 16).toNat)
  let buff ← store buff 8 tval
  setCksum buff len

-- ============================================================================
-- Words in place
-- ============================================================================

section Words

variable {buff : List UInt8} {k w : Nat}

theorem wordBytes16 (h : w < 65536) :
    (UInt8.ofNat w).toNat + 256 * (UInt8.ofNat (w / 256)).toNat = w := by
  rw [UInt8.toNat_ofNat', UInt8.toNat_ofNat']
  omega

/-- Another word at one place moves the sum by the difference. -/
theorem sum_hostWords_splice (hw : w < 65536) :
    ∀ (k : Nat) (buff : List UInt8), 2 * k + 2 ≤ buff.length →
      (hostWords (splice buff (2 * k) (bytes16 w))).sum + le16 buff (2 * k)
        = (hostWords buff).sum + w := by
  intro k
  induction k with
  | zero =>
      intro buff hk
      match buff, hk with
      | low :: high :: rest, _ =>
          show (UInt8.ofNat w).toNat + 256 * (UInt8.ofNat (w / 256)).toNat + (hostWords rest).sum
              + (low.toNat + 256 * high.toNat)
            = low.toNat + 256 * high.toNat + (hostWords rest).sum + w
          rw [wordBytes16 hw]
          omega
  | succ k ih =>
      intro buff hk
      match buff, hk with
      | low :: high :: rest, hk =>
          have hrest := ih rest (by simpa [Nat.mul_succ] using hk)
          have hword : le16 (low :: high :: rest) (2 * (k + 1)) = le16 rest (2 * k) := by
            rw [Nat.mul_succ, Nat.add_comm]
            exact le16_of_drop rfl (2 * k)
          have hsplice : splice (low :: high :: rest) (2 * (k + 1)) (bytes16 w)
              = low :: high :: splice rest (2 * k) (bytes16 w) := by
            rw [Nat.mul_succ, splice, splice, List.take_succ_cons, List.take_succ_cons]
            rfl
          rw [hword, hsplice, hostWords, List.sum_cons, hostWords, List.sum_cons]
          omega

/-- The checksum is zero for the sums that are a multiple of 65535 and not zero. -/
theorem calcCksum_eq_zero (h : buff.length ≤ 65535) :
    calcCksum buff buff.length = .ok 0 ↔
      (hostWords buff).sum ≠ 0 ∧ (hostWords buff).sum % 65535 = 0 := by
  have hle := canon_le (hostWords buff).sum
  have hmod := canon_mod (hostWords buff).sum
  have hzero := @canon_eq_zero (hostWords buff).sum
  rw [calcCksum_eq h, Except.ok.injEq]
  omega

end Words

-- ============================================================================
-- Packets that verify
-- ============================================================================

section Verify

variable {packet : List UInt8}

/-- The checksum goes to the field, and the sum is then the old one and its complement. -/
theorem setCksum_eq (hmin : 8 ≤ packet.length) (hmax : packet.length ≤ 65534)
    (hfield : le16 packet 2 = 0) :
    ∃ out, setCksum packet packet.length = .ok out ∧ out.length = packet.length ∧
      (hostWords out).sum
        = (hostWords packet).sum + (65535 - canon (hostWords packet).sum) := by
  have hroom : 2 + (bytes16 (65535 - canon (hostWords packet).sum)).length ≤ packet.length := by
    show 2 + 2 ≤ packet.length
    omega
  refine ⟨splice packet 2 (bytes16 (65535 - canon (hostWords packet).sum)), ?_,
    splice_length hroom, ?_⟩
  · rw [setCksum, bind_of_ok (calcCksum_eq (by omega)), store_of_le hroom]
  · have hsum := sum_hostWords_splice (show 65535 - canon (hostWords packet).sum < 65536 by omega)
      1 packet (by omega)
    rw [hfield] at hsum
    exact hsum

/-- A sum and its complement come to zero. -/
theorem canon_complement (n : Nat) :
    n + (65535 - canon n) ≠ 0 ∧ (n + (65535 - canon n)) % 65535 = 0 := by
  have hle := canon_le n
  have hmod := canon_mod n
  have hzero := @canon_eq_zero n
  omega

/-- The checksum of the packet is 0, and with another word in the place of one of its words it is
    not, unless the two are congruent modulo 65535. -/
def Verifies (packet : List UInt8) : Prop :=
  calcCksum packet packet.length = .ok 0 ∧
    ∀ k w, 2 * k + 2 ≤ packet.length → w < 2 ^ 16 → w % 65535 ≠ le16 packet (2 * k) % 65535 →
      ∃ cksum, calcCksum (splice packet (2 * k) (bytes16 w)) packet.length = .ok cksum ∧ cksum ≠ 0

theorem verifies_of_sum (hmax : packet.length ≤ 65534) (hne : (hostWords packet).sum ≠ 0)
    (hmod : (hostWords packet).sum % 65535 = 0) : Verifies packet := by
  refine ⟨(calcCksum_eq_zero (by omega)).mpr ⟨hne, hmod⟩, ?_⟩
  intro k w hk hw hdiff
  have hlen : (splice packet (2 * k) (bytes16 w)).length = packet.length := splice_length hk
  have hsum := sum_hostWords_splice hw k packet hk
  have heq := calcCksum_eq (show (splice packet (2 * k) (bytes16 w)).length ≤ 65535 by omega)
  have hzero := @calcCksum_eq_zero (splice packet (2 * k) (bytes16 w)) (by omega)
  rw [hlen] at heq hzero
  refine ⟨_, heq, fun hnone => ?_⟩
  rw [hnone] at heq
  obtain ⟨-, hmod'⟩ := hzero.mp heq
  apply hdiff
  omega

theorem setCksum_verified (hmin : 8 ≤ packet.length) (hmax : packet.length ≤ 65534)
    (hfield : le16 packet 2 = 0) :
    ∃ out, setCksum packet packet.length = .ok out ∧ out.length = packet.length ∧
      Verifies out := by
  obtain ⟨out, hout, hlen, hsum⟩ := setCksum_eq hmin hmax hfield
  obtain ⟨hne, hmod⟩ := canon_complement (hostWords packet).sum
  rw [← hsum] at hne hmod
  exact ⟨out, hout, hlen, verifies_of_sum (by omega) hne hmod⟩

theorem le16_zeroed (h : 4 ≤ packet.length) : le16 (splice packet 2 (bytes16 0)) 2 = 0 := by
  have hhead : (packet.take 2).length = 2 := by
    rw [List.length_take]
    omega
  rw [splice]
  exact le16_of_drop (List.drop_left' hhead) 0

/-- For every packet of 8 to 65534 bytes whose checksum field was zeroed and then set as
    `icmp_packet` does, the checksum of the packet is 0, and after any single word is replaced by
    another one that is not congruent to it modulo 65535 the checksum is not 0. -/
theorem setCksum_verifies (packet : List UInt8) (hmin : 8 ≤ packet.length)
    (hmax : packet.length ≤ 65534) :
    ∃ out, setCksum (splice packet 2 (bytes16 0)) packet.length = .ok out ∧
      out.length = packet.length ∧ Verifies out := by
  have hroom : 2 + (bytes16 0).length ≤ packet.length := by
    show 2 + 2 ≤ packet.length
    omega
  have hlen := splice_length hroom
  obtain ⟨out, hout, hout', hverifies⟩ := @setCksum_verified (splice packet 2 (bytes16 0))
    (by omega) (by omega) (le16_zeroed (by omega))
  rw [hlen] at hout hout'
  exact ⟨out, hout, hout', hverifies⟩

theorem setCksum_verifies_echo :
    ∃ out, setCksum (splice [8, 0, 9, 9, 1, 2, 3, 4] 2 (bytes16 0)) 8 = .ok out ∧
      out.length = 8 ∧ Verifies out :=
  setCksum_verifies [8, 0, 9, 9, 1, 2, 3, 4] (by decide) (by decide)

/-- A store behind the checksum field leaves the field alone. -/
theorem store_behind {buff src : List UInt8} {off : Nat} (hoff : 4 ≤ off)
    (hroom : off + src.length ≤ buff.length) :
    ∃ out, store buff off src = .ok out ∧ out.length = buff.length ∧
      le16 out 2 = le16 buff 2 := by
  refine ⟨splice buff off src, store_of_le hroom, splice_length hroom, ?_⟩
  simp only [le16, List.getD_eq_getElem?_getD]
  rw [splice_getElem? hroom, splice_getElem? hroom, if_neg (by omega), if_neg (by omega)]

/-- What `icmp_packet` makes of a buffer with room for the time verifies. -/
theorem icmpPacket_verifies {buff tval : List UInt8} (id seq : Int)
    (hroom : 8 + tval.length ≤ buff.length) (hmax : buff.length ≤ 65534) :
    ∃ out, icmpPacket buff buff.length id seq tval = .ok out ∧ out.length = buff.length ∧
      Verifies out := by
  obtain ⟨typed, htyped, hlen₁⟩ : ∃ b, store buff 0 [8] = .ok b ∧ b.length = buff.length :=
    ⟨_, store_of_le (show 0 + 1 ≤ buff.length by omega),
      splice_length (show 0 + 1 ≤ buff.length by omega)⟩
  obtain ⟨coded, hcoded, hlen₂⟩ : ∃ b, store typed 1 [0] = .ok b ∧ b.length = typed.length :=
    ⟨_, store_of_le (show 1 + 1 ≤ typed.length by omega),
      splice_length (show 1 + 1 ≤ typed.length by omega)⟩
  have hfield : 2 + (bytes16 0).length ≤ coded.length := by
    show 2 + 2 ≤ coded.length
    omega
  have hlen₃ := splice_length hfield
  have hzero := @le16_zeroed coded (by omega)
  obtain ⟨named, hnamed, hlen₄, hkeep₄⟩ := @store_behind (splice coded 2 (bytes16 0))
    (bytes16 (id % 2 ^ 16).toNat) 4 (by omega) (show 4 + 2 ≤ _ by omega)
  obtain ⟨counted, hcounted, hlen₅, hkeep₅⟩ := @store_behind named
    (bytes16 (seq % 2 ^ 16).toNat) 6 (by omega) (show 6 + 2 ≤ _ by omega)
  obtain ⟨filled, hfilled, hlen₆, hkeep₆⟩ := @store_behind counted tval 8 (by omega) (by omega)
  obtain ⟨out, hout, hlen, hverifies⟩ := @setCksum_verified filled (by omega) (by omega)
    (by rw [hkeep₆, hkeep₅, hkeep₄, hzero])
  refine ⟨out, ?_, by omega, hverifies⟩
  rw [icmpPacket, bind_of_ok htyped, bind_of_ok hcoded, bind_of_ok (store_of_le hfield),
    bind_of_ok hnamed, bind_of_ok hcounted, bind_of_ok hfilled, ← hout]
  congr 2
  omega

end Verify

end LinuxCodeDemos.NetInterface

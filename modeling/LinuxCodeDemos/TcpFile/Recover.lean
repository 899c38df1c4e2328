/-
  LinuxCodeDemos.TcpFile.Recover

  `RecoverData` and `RecoverSelfData` of `socket/tcp_00/crc.h`, which turn the
  order of bytes round, for every length.

  The length is an `int`, the counters are `unsigned char`.  From 256 on the
  counter of `RecoverData` is always below the length, and the loop goes on for
  ever (`recoverData_endless`).  `RecoverSelfData` has its mirrored index modulo
  256 as well: behind 256 bytes the last byte stays where it is
  (`recoverSelfTurn_last`).
-/

import Mathlib.Data.List.GetD
import LinuxCodeDemos.Lib.While
import LinuxCodeDemos.TcpFile.Crc

namespace LinuxCodeDemos.TcpFile

open Lib

-- ============================================================================
-- The loops
-- ============================================================================

/-- An array of `len` bytes. -/
abbrev Bytes (len : Nat) := { block : List UInt8 // block.length = len }

/-- The counter and the block that is written. -/
structure Recovery where
  i : UInt8
  block : List UInt8

/-- A turn of `RecoverData`. -/
def recoverTurn (pSrc : List UInt8) (len : Nat) (s : Recovery) : Except Fault Recovery := do
  let value ← load pSrc s.i.toNat
  let pDst ← store s.block (len - s.i.toNat - 1) [value]
  .ok { i := s.i + 1, block := pDst }

/-- `RecoverData`, with at most `fuel` tests of the loop; `none` means that it was still going. -/
def recoverData (pSrc pDst : List UInt8) (len fuel : Nat) : Except Fault (Option (List UInt8)) :=
  (whileLoop (fun s => s.i.toNat < len) (recoverTurn pSrc len) fuel { i := 0, block := pDst }).map
    (Option.map Recovery.block)

/-- A turn of `RecoverSelfData`. -/
def recoverSelfTurn (len : Nat) (s : Recovery) : Except Fault Recovery := do
  let j := UInt8.ofNat (len - s.i.toNat - 1)
  let tmp ← load s.block s.i.toNat
  let value ← load s.block j.toNat
  let pData ← store s.block s.i.toNat [value]
  let pData ← store pData j.toNat [tmp]
  .ok { i := s.i + 1, block := pData }

/-- `RecoverSelfData` with its accesses checked. -/
def recoverSelfDataChecked (pData : List UInt8) (len fuel : Nat) :
    Except Fault (Option (List UInt8)) :=
  (whileLoop (fun s => s.i.toNat < len / 2) (recoverSelfTurn len) fuel
    { i := 0, block := pData }).map (Option.map Recovery.block)

/-- `RecoverData` ends inside its arrays, with `pSrc` the other way round in `pDst`. -/
def RecoversData {len : Nat} (pSrc pDst : Bytes len) : Prop :=
  ∃ fuel, recoverData pSrc.1 pDst.1 len fuel = .ok (some pSrc.1.reverse)

/-- `RecoverSelfData` ends inside its array, with the bytes the other way round. -/
def RecoversSelfData {len : Nat} (pData : Bytes len) : Prop :=
  ∃ fuel, recoverSelfDataChecked pData.1 len fuel = .ok (some pData.1.reverse)

-- ============================================================================
-- `RecoverData`
-- ============================================================================

section Copy

variable {len : Nat} {pSrc : List UInt8} {s : Recovery}

theorem toNat_succ {i : UInt8} (h : i.toNat < 255) : (i + 1).toNat = i.toNat + 1 := by
  rw [UInt8.toNat_add, UInt8.toNat_one]
  omega

/-- A turn copies one byte to the place across. -/
theorem recoverTurn_ok (hsrc : pSrc.length = len) (hblock : s.block.length = len)
    (hi : s.i.toNat < len) :
    recoverTurn pSrc len s = .ok
      { i := s.i + 1
        block := s.block.set (len - s.i.toNat - 1) (pSrc.getD s.i.toNat 0) } := by
  rw [recoverTurn, bind_of_ok (load_getD (show s.i.toNat < pSrc.length by omega) 0),
    bind_of_ok (store_single (show len - s.i.toNat - 1 < s.block.length by omega) _)]

/-- The end of the block is copied, as far as the counter has come. -/
structure Copied (len : Nat) (pSrc : List UInt8) (s : Recovery) : Prop where
  length : s.block.length = len
  counter : s.i.toNat ≤ len
  copied : ∀ m, len - s.i.toNat ≤ m → m < len → s.block[m]? = pSrc[len - 1 - m]?

theorem Copied.turn (hsrc : pSrc.length = len) (hlen : len ≤ 255) (h : Copied len pSrc s)
    (hi : s.i.toNat < len) :
    ∃ s', recoverTurn pSrc len s = .ok s' ∧ Copied len pSrc s' ∧
      len - s'.i.toNat < len - s.i.toNat := by
  have hnext : (s.i + 1).toNat = s.i.toNat + 1 := toNat_succ (by omega)
  refine ⟨_, recoverTurn_ok hsrc h.length hi, ⟨?_, ?_, ?_⟩, ?_⟩
  · rw [List.length_set, h.length]
  · show (s.i + 1).toNat ≤ len
    omega
  · intro m hlow hhigh
    change len - (s.i + 1).toNat ≤ m at hlow
    rw [List.getElem?_set]
    by_cases hm : len - s.i.toNat - 1 = m
    · have hi' : s.i.toNat < pSrc.length := by omega
      rw [if_pos hm, if_pos (by rw [h.length]; omega), List.getD_eq_getElem _ _ hi',
        ← List.getElem?_eq_getElem hi', ← hm]
      congr 1
      omega
    · rw [if_neg hm]
      exact h.copied m (by omega) hhigh
  · show len - (s.i + 1).toNat < len - s.i.toNat
    omega

/-- All of a block that is copied is the source the other way round. -/
theorem Copied.eq_reverse (hsrc : pSrc.length = len) (h : Copied len pSrc s)
    (hend : len ≤ s.i.toNat) : s.block = pSrc.reverse := by
  apply List.ext_getElem?
  intro m
  by_cases hm : m < len
  · rw [h.copied m (by omega) hm, List.getElem?_reverse (by omega), hsrc]
  · rw [List.getElem?_eq_none (by rw [h.length]; omega),
      List.getElem?_eq_none (by rw [List.length_reverse]; omega)]

theorem recoversData_of_le (hlen : len ≤ 255) (pSrc pDst : Bytes len) :
    RecoversData pSrc pDst := by
  obtain ⟨pSrc, hsrc⟩ := pSrc
  obtain ⟨pDst, hdst⟩ := pDst
  have hstart : Copied len pSrc { i := 0, block := pDst } :=
    ⟨hdst, Nat.zero_le _, fun m hlow hhigh => absurd hhigh (Nat.not_lt.mpr hlow)⟩
  have hfuel : len - ({ i := 0, block := pDst } : Recovery).i.toNat < len + 1 :=
    Nat.lt_succ_of_le (Nat.sub_le ..)
  obtain ⟨s, hloop, hs, hend⟩ := whileLoop_ends (fun s : Recovery => len - s.i.toNat)
    (fun s hs hi => hs.turn hsrc hlen (of_decide_eq_true hi)) hstart hfuel
  refine ⟨len + 1, ?_⟩
  rw [recoverData, hloop, ← hs.eq_reverse hsrc (Nat.not_lt.mp (of_decide_eq_false hend))]
  rfl

/-- From 256 bytes on the counter never comes to the length. -/
theorem recoverData_endless (hlen : 256 ≤ len) (pSrc pDst : Bytes len) (fuel : Nat) :
    recoverData pSrc.1 pDst.1 len fuel = .ok none := by
  have hturn : ∀ s : Recovery, s.block.length = len →
      decide (s.i.toNat < len) = true ∧
        ∃ s', recoverTurn pSrc.1 len s = .ok s' ∧ s'.block.length = len := by
    intro s hs
    have hi : s.i.toNat < len := Nat.lt_of_lt_of_le s.i.toNat_lt hlen
    refine ⟨decide_eq_true hi, _, recoverTurn_ok pSrc.2 hs hi, ?_⟩
    rw [List.length_set, hs]
  rw [recoverData, whileLoop_endless hturn fuel pDst.2]
  rfl

end Copy

-- ============================================================================
-- `RecoverSelfData`
-- ============================================================================

section Swap

variable {len : Nat} {orig : List UInt8} {s : Recovery}

/-- `j = Len - i - 1`, as an `unsigned char`. -/
theorem toNat_mirror (len i : Nat) :
    (UInt8.ofNat (len - i - 1)).toNat = (len - i - 1) % 256 := UInt8.toNat_ofNat'

/-- A turn swaps two bytes of the array, for every length. -/
theorem recoverSelfTurn_ok (hblock : s.block.length = len) (hi : s.i.toNat < len / 2) :
    recoverSelfTurn len s = .ok
      { i := s.i + 1
        block := (s.block.set s.i.toNat
            (s.block.getD (UInt8.ofNat (len - s.i.toNat - 1)).toNat 0)).set
          (UInt8.ofNat (len - s.i.toNat - 1)).toNat (s.block.getD s.i.toNat 0) } := by
  have hilt : s.i.toNat < s.block.length := by omega
  have hj := toNat_mirror len s.i.toNat
  have hjlt : (UInt8.ofNat (len - s.i.toNat - 1)).toNat < s.block.length := by
    have hmod := Nat.mod_le (len - s.i.toNat - 1) 256
    omega
  rw [recoverSelfTurn, bind_of_ok (load_getD hilt 0), bind_of_ok (load_getD hjlt 0),
    bind_of_ok (store_single hilt _),
    bind_of_ok (store_single (by rw [List.length_set]; exact hjlt) _)]

/-- In an array of `len` bytes no access of `RecoverSelfData` is a fault. -/
theorem recoverSelfDataChecked_eq (hlen : orig.length = len) (fuel : Nat) :
    recoverSelfDataChecked orig len fuel = .ok (recoverSelfDataLoop fuel 0 orig len) := by
  have hloop : ∀ s : Recovery, s.block.length = len →
      (whileLoop (fun s => s.i.toNat < len / 2) (recoverSelfTurn len) fuel s).map
          (Option.map Recovery.block)
        = .ok (recoverSelfDataLoop fuel s.i s.block len) := by
    induction fuel with
    | zero => exact fun _ _ => rfl
    | succ fuel ih =>
        intro s hs
        rw [whileLoop, recoverSelfDataLoop]
        by_cases hi : s.i.toNat < len / 2
        · rw [if_pos (decide_eq_true hi), if_pos hi, recoverSelfTurn_ok hs hi]
          exact ih _ (by rw [List.length_set, List.length_set, hs])
        · rw [if_neg (by rw [decide_eq_true_iff]; exact hi), if_neg hi]
          rfl
  exact hloop _ hlen

/-- The bytes in front of the counter and those across are swapped, the others are as they
    were. -/
structure Swapped (len : Nat) (orig : List UInt8) (s : Recovery) : Prop where
  length : s.block.length = len
  counter : s.i.toNat ≤ len / 2
  swapped : ∀ m < len, s.block[m]?
    = if m < s.i.toNat ∨ len - s.i.toNat ≤ m then orig[len - 1 - m]? else orig[m]?

theorem Swapped.turn (hlen : len ≤ 256) (h : Swapped len orig s) (hi : s.i.toNat < len / 2) :
    ∃ s', recoverSelfTurn len s = .ok s' ∧ Swapped len orig s' ∧
      len / 2 - s'.i.toNat < len / 2 - s.i.toNat := by
  have hnext : (s.i + 1).toNat = s.i.toNat + 1 := toNat_succ (by omega)
  have hj : (UInt8.ofNat (len - s.i.toNat - 1)).toNat = len - s.i.toNat - 1 := by
    rw [toNat_mirror, Nat.mod_eq_of_lt (by omega)]
  have hget : ∀ m, m < len → some (s.block.getD m 0) = s.block[m]? := by
    intro m hm
    rw [List.getD_eq_getElem _ _ (by rw [h.length]; exact hm),
      List.getElem?_eq_getElem (by rw [h.length]; exact hm)]
  refine ⟨_, recoverSelfTurn_ok h.length hi, ⟨?_, ?_, ?_⟩, ?_⟩
  · rw [List.length_set, List.length_set, h.length]
  · show (s.i + 1).toNat ≤ len / 2
    omega
  · intro m hm
    show _ = if m < (s.i + 1).toNat ∨ len - (s.i + 1).toNat ≤ m then _ else _
    rw [hj, hnext, List.getElem?_set, List.getElem?_set, List.length_set, h.length]
    by_cases hacross : len - s.i.toNat - 1 = m
    · -- the byte across gets the one at the counter
      rw [if_pos hacross, if_pos (by omega), if_pos (by omega), hget _ (by omega),
        h.swapped _ (by omega), if_neg (by omega)]
      congr 1
      omega
    · rw [if_neg hacross]
      by_cases hcounter : s.i.toNat = m
      · rw [if_pos hcounter, if_pos (by omega), if_pos (by omega), hget _ (by omega),
          h.swapped _ (by omega), if_neg (by omega)]
        congr 1
        omega
      · rw [if_neg hcounter, h.swapped m hm]
        exact if_congr (by omega) rfl rfl
  · show len / 2 - (s.i + 1).toNat < len / 2 - s.i.toNat
    omega

theorem Swapped.eq_reverse (horig : orig.length = len) (h : Swapped len orig s)
    (hend : len / 2 ≤ s.i.toNat) : s.block = orig.reverse := by
  apply List.ext_getElem?
  intro m
  by_cases hm : m < len
  · rw [h.swapped m hm, List.getElem?_reverse (by omega), horig]
    by_cases hmid : m < s.i.toNat ∨ len - s.i.toNat ≤ m
    · rw [if_pos hmid]
    · -- the byte in the middle
      have hcounter := h.counter
      rw [if_neg hmid]
      congr 1
      omega
  · rw [List.getElem?_eq_none (by rw [h.length]; omega),
      List.getElem?_eq_none (by rw [List.length_reverse]; omega)]

theorem recoversSelfData_of_le (hlen : len ≤ 256) (pData : Bytes len) :
    RecoversSelfData pData := by
  obtain ⟨orig, horig⟩ := pData
  have hstart : Swapped len orig { i := 0, block := orig } := by
    refine ⟨horig, Nat.zero_le _, fun m hm => ?_⟩
    exact (if_neg (not_or.mpr ⟨Nat.not_lt_zero m, Nat.not_le.mpr hm⟩)).symm
  have hfuel : len / 2 - ({ i := 0, block := orig } : Recovery).i.toNat < len / 2 + 1 :=
    Nat.lt_succ_of_le (Nat.sub_le ..)
  obtain ⟨s, hloop, hs, hend⟩ := whileLoop_ends (fun s : Recovery => len / 2 - s.i.toNat)
    (fun s hs hi => hs.turn hlen (of_decide_eq_true hi)) hstart hfuel
  refine ⟨len / 2 + 1, ?_⟩
  rw [recoverSelfDataChecked, hloop,
    ← hs.eq_reverse horig (Nat.not_lt.mp (of_decide_eq_false hend))]
  rfl

/-- Behind 256 bytes no turn touches the last one. -/
theorem recoverSelfTurn_last {s' : Recovery} (hlen : 256 < len) (hblock : s.block.length = len)
    (hi : s.i.toNat < len / 2) (hturn : recoverSelfTurn len s = .ok s') :
    s'.block.length = len ∧ s'.block[len - 1]? = s.block[len - 1]? := by
  have hj := toNat_mirror len s.i.toNat
  have hbyte := s.i.toNat_lt
  rw [recoverSelfTurn_ok hblock hi] at hturn
  cases hturn
  refine ⟨by rw [List.length_set, List.length_set, hblock], ?_⟩
  rw [List.getElem?_set_ne (by omega), List.getElem?_set_ne (by omega)]

/-- An array of more than 256 bytes that is turned round begins and ends alike. -/
theorem RecoversSelfData.ends_alike {pData : Bytes len} (hlen : 256 < len)
    (h : RecoversSelfData pData) : pData.1[0]? = pData.1[len - 1]? := by
  obtain ⟨orig, horig⟩ := pData
  obtain ⟨fuel, hcall⟩ := h
  obtain ⟨s?, hloop, hview⟩ := exists_ok_of_map hcall
  obtain ⟨s, rfl, hs⟩ := Option.map_eq_some_iff.mp hview
  have hturns : ∀ s s' : Recovery,
      s.block.length = len ∧ s.block[len - 1]? = orig[len - 1]? →
      decide (s.i.toNat < len / 2) = true → recoverSelfTurn len s = .ok s' →
      s'.block.length = len ∧ s'.block[len - 1]? = orig[len - 1]? := by
    rintro s s' ⟨hblock, hlast⟩ hi hturn
    obtain ⟨hblock', hlast'⟩ :=
      recoverSelfTurn_last hlen hblock (of_decide_eq_true hi) hturn
    exact ⟨hblock', hlast'.trans hlast⟩
  have hlast := (whileLoop_keeps hturns ⟨horig, rfl⟩ hloop).2
  rw [hs, List.getElem?_reverse (show len - 1 < orig.length by omega), horig,
    show len - 1 - (len - 1) = 0 by omega] at hlast
  exact hlast

/-- Zeros, and a one at the end. -/
def lastOne (n : Nat) : Bytes (n + 1) :=
  ⟨List.replicate n 0 ++ [1], by rw [List.length_append, List.length_replicate]; rfl⟩

theorem not_recoversSelfData_lastOne {n : Nat} (h : 256 ≤ n) : ¬ RecoversSelfData (lastOne n) := by
  intro hrecovers
  have hends := hrecovers.ends_alike (by omega)
  rw [lastOne, List.getElem?_append_left (by rw [List.length_replicate]; omega),
    List.getElem?_replicate_of_lt (by omega), Nat.add_sub_cancel,
    List.getElem?_append_right (by rw [List.length_replicate]), List.length_replicate,
    Nat.sub_self] at hends
  exact absurd hends (by decide)

/-- `RecoverSelfData` alone turns every array round exactly up to 256 bytes. -/
theorem recoversSelfData_iff (len : Nat) :
    (∀ pData : Bytes len, RecoversSelfData pData) ↔ len ≤ 256 := by
  refine ⟨?_, ?_⟩
  · intro h
    by_contra hlen
    obtain ⟨n, rfl⟩ : ∃ n, len = n + 1 := ⟨len - 1, by omega⟩
    exact not_recoversSelfData_lastOne (by omega) (h (lastOne n))
  · intro hlen pData
    exact recoversSelfData_of_le hlen pData

end Swap

/-- For every length and all arrays of that length, both functions end inside their arrays and
    turn the bytes round exactly if there are at most 255. -/
theorem recovers_iff (len : Nat) (pSrc pDst pData : Bytes len) :
    RecoversData pSrc pDst ∧ RecoversSelfData pData ↔ len ≤ 255 := by
  refine ⟨?_, ?_⟩
  · rintro ⟨⟨fuel, hcall⟩, -⟩
    by_contra hlen
    rw [recoverData_endless (by omega)] at hcall
    cases hcall
  · intro hlen
    exact ⟨recoversData_of_le hlen pSrc pDst, recoversSelfData_of_le (by omega) pData⟩

/-- `RecoverData` never returns from 256 bytes, and `RecoverSelfData` does not turn 257 round. -/
theorem recovers_long :
    (∀ fuel, recoverData (List.replicate 256 0) (List.replicate 256 0) 256 fuel = .ok none) ∧
      ¬ RecoversSelfData (lastOne 256) := by
  have hzeros : (List.replicate 256 0 : List UInt8).length = 256 := List.length_replicate
  refine ⟨fun fuel => ?_, not_recoversSelfData_lastOne (Nat.le_refl 256)⟩
  exact recoverData_endless (Nat.le_refl 256) ⟨_, hzeros⟩ ⟨_, hzeros⟩ fuel

end LinuxCodeDemos.TcpFile

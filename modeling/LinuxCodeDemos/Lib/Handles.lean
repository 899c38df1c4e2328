/-
  LinuxCodeDemos.Lib.Handles

  Handles of the kernel and the connections behind them.

  A handle (a descriptor, a socket) that is closed may be given out again, so it does not say
  which connection it stands for.  Connections are numbered in the order of their opening and a
  number is never used again.  `live` are the handles of those accepted connections that are
  still open, in the order of acceptance.
-/

import Mathlib.Logic.Function.Basic
import Mathlib.Data.List.Nodup

namespace LinuxCodeDemos.Lib

open Function (update)

variable {H : Type} [DecidableEq H]

/-- The connection behind every open handle, and the number of the next one. -/
structure Handles (H : Type) where
  opened : H → Option Nat
  next : Nat

/-- An accepted connection and its handle. -/
structure Accepted (H : Type) where
  conn : Nat
  handle : H
  deriving DecidableEq, Repr

namespace Handles

/-- One handle is open before the first connection comes. -/
def single (handle : H) : Handles H :=
  { opened := fun k => if k = handle then some 0 else none, next := 1 }

/-- A new connection gets a handle that is not in use. -/
def take (handle : H) (h : Handles H) : Handles H :=
  { opened := update h.opened handle (some h.next), next := h.next + 1 }

def close (handle : H) (h : Handles H) : Handles H :=
  { h with opened := update h.opened handle none }

/-- The connection is still open. -/
def isLive (h : Handles H) (a : Accepted H) : Bool := h.opened a.handle = some a.conn

/-- The handles of the accepted connections that are still open. -/
def live (h : Handles H) (accepted : List (Accepted H)) : List H :=
  (accepted.filter h.isLive).map Accepted.handle

/-- Connections have one number each, below the next one, and one handle while they are open; 0 is
    the number of what was open before the first one. -/
structure Numbered (h : Handles H) (accepted : List (Accepted H)) : Prop where
  next_pos : 0 < h.next
  lt : ∀ a ∈ accepted, a.conn < h.next
  pos : ∀ a ∈ accepted, 0 < a.conn
  distinct : (accepted.map Accepted.conn).Nodup
  opened_lt : ∀ handle conn, h.opened handle = some conn → conn < h.next
  opened_inj : ∀ handle handle' conn,
    h.opened handle = some conn → h.opened handle' = some conn → handle = handle'

section Facts

variable {h : Handles H} {accepted : List (Accepted H)} {handle k : H} {conn : Nat}

omit [DecidableEq H] in
theorem mem_live_iff : handle ∈ h.live accepted ↔
    ∃ a ∈ accepted, h.opened a.handle = some a.conn ∧ a.handle = handle := by
  simp only [live, isLive, List.mem_map, List.mem_filter, decide_eq_true_eq, and_assoc]

omit [DecidableEq H] in
/-- An open handle and a free one. -/
theorem ne_of_opened (hk : h.opened k = some conn) (hfree : h.opened handle = none) :
    k ≠ handle := by
  rintro rfl
  rw [hfree] at hk
  cases hk

theorem opened_single (hk : (single handle).opened k = some conn) : k = handle ∧ conn = 0 := by
  rw [single] at hk
  dsimp only at hk
  split at hk
  · next heq => exact ⟨heq, (Option.some.inj hk).symm⟩
  · cases hk

theorem numbered_single (handle : H) : (single handle).Numbered [] := by
  refine ⟨Nat.one_pos, fun _ ha => (nomatch ha), fun _ ha => (nomatch ha), List.nodup_nil, ?_, ?_⟩
  · intro k conn hk
    rw [(opened_single hk).2]
    exact Nat.one_pos
  · intro k k' conn hk hk'
    rw [(opened_single hk).1, (opened_single hk').1]

/-- What is open after `close` was open before. -/
theorem opened_close (hk : (h.close handle).opened k = some conn) :
    k ≠ handle ∧ h.opened k = some conn := by
  by_cases heq : k = handle
  · rw [heq] at hk
    exact absurd hk (by simp [Handles.close])
  · exact ⟨heq, (Function.update_of_ne heq ..).symm.trans hk⟩

/-- What is open after `take` is the new connection or was open before. -/
theorem opened_take (hk : (h.take handle).opened k = some conn) :
    (k = handle ∧ conn = h.next) ∨ (k ≠ handle ∧ h.opened k = some conn) := by
  by_cases heq : k = handle
  · have hself : (h.take handle).opened handle = some h.next := Function.update_self ..
    rw [heq, hself] at hk
    exact .inl ⟨heq, (Option.some.inj hk).symm⟩
  · exact .inr ⟨heq, (Function.update_of_ne heq ..).symm.trans hk⟩

omit [DecidableEq H] in
/-- The open handles alone. -/
theorem Numbered.forget (hn : h.Numbered accepted) : h.Numbered [] :=
  ⟨hn.next_pos, fun _ ha => (nomatch ha), fun _ ha => (nomatch ha), List.nodup_nil, hn.opened_lt,
    hn.opened_inj⟩

theorem Numbered.close (hn : h.Numbered accepted) (handle : H) :
    (h.close handle).Numbered accepted := by
  refine ⟨hn.next_pos, hn.lt, hn.pos, hn.distinct, ?_, ?_⟩
  · intro k conn hk
    exact hn.opened_lt k conn (opened_close hk).2
  · intro k k' conn hk hk'
    exact hn.opened_inj k k' conn (opened_close hk).2 (opened_close hk').2

theorem Numbered.take (hn : h.Numbered accepted) (handle : H) :
    (h.take handle).Numbered (accepted ++ [⟨h.next, handle⟩]) := by
  constructor
  case next_pos => exact Nat.succ_pos _
  case lt =>
    intro a ha
    rcases List.mem_append.mp ha with hold | hnew
    · exact Nat.lt_succ_of_lt (hn.lt a hold)
    · rw [List.mem_singleton.mp hnew]
      exact Nat.lt_succ_self _
  case pos =>
    intro a ha
    rcases List.mem_append.mp ha with hold | hnew
    · exact hn.pos a hold
    · rw [List.mem_singleton.mp hnew]
      exact hn.next_pos
  case distinct =>
    rw [List.map_append, List.nodup_append]
    refine ⟨hn.distinct, List.nodup_singleton _, ?_⟩
    intro conn hconn conn' hconn'
    obtain ⟨a, ha, rfl⟩ := List.mem_map.mp hconn
    rw [List.mem_singleton.mp hconn']
    exact Nat.ne_of_lt (hn.lt a ha)
  case opened_lt =>
    intro k conn hk
    rcases opened_take hk with ⟨-, rfl⟩ | ⟨-, hold⟩
    · exact Nat.lt_succ_self _
    · exact Nat.lt_succ_of_lt (hn.opened_lt k conn hold)
  case opened_inj =>
    intro k k' conn hk hk'
    rcases opened_take hk with ⟨rfl, rfl⟩ | ⟨-, hold⟩
    · rcases opened_take hk' with ⟨rfl, -⟩ | ⟨-, hold'⟩
      · rfl
      · exact absurd (hn.opened_lt k' _ hold') (Nat.lt_irrefl _)
    · rcases opened_take hk' with ⟨-, rfl⟩ | ⟨-, hold'⟩
      · exact absurd (hn.opened_lt k _ hold) (Nat.lt_irrefl _)
      · exact hn.opened_inj k k' conn hold hold'

omit [DecidableEq H] in
/-- A handle stands for one accepted connection at most. -/
theorem Numbered.live_nodup (hn : h.Numbered accepted) : (h.live accepted).Nodup := by
  have hsub : ((accepted.filter h.isLive).map Accepted.conn).Nodup :=
    hn.distinct.sublist (List.filter_sublist.map _)
  refine List.Nodup.map_on ?_ hsub.of_map
  intro a ha b hb heq
  have hafd := of_decide_eq_true (List.mem_filter.mp ha).2
  have hbfd := of_decide_eq_true (List.mem_filter.mp hb).2
  rw [heq, hbfd] at hafd
  have hconn : a.conn = b.conn := (Option.some.inj hafd).symm
  cases a
  cases b
  simp_all

/-- Giving a free handle out changes nothing for the others. -/
theorem Numbered.isLive_take (hn : h.Numbered accepted) (hfree : h.opened handle = none)
    {a : Accepted H} (ha : a ∈ accepted) : (h.take handle).isLive a = h.isLive a := by
  by_cases heq : a.handle = handle
  · have hne : h.next ≠ a.conn := Nat.ne_of_gt (hn.lt a ha)
    simp [isLive, Handles.take, heq, hfree, hne]
  · simp [isLive, Handles.take, Function.update_of_ne heq]

theorem Numbered.live_take (hn : h.Numbered accepted) (hfree : h.opened handle = none) :
    (h.take handle).live (accepted ++ [⟨h.next, handle⟩]) = h.live accepted ++ [handle] := by
  have hnew : (h.take handle).isLive ⟨h.next, handle⟩ = true := by
    simp [isLive, Handles.take]
  rw [live, live, List.filter_append, List.map_append,
    List.filter_congr fun a ha => hn.isLive_take hfree ha, List.filter_singleton, hnew]
  rfl

/-- Closing a handle takes it out. -/
theorem Numbered.live_close (hn : h.Numbered accepted) (handle : H) :
    (h.close handle).live accepted = (h.live accepted).erase handle := by
  have hlive : ∀ a, (h.close handle).isLive a = (h.isLive a && a.handle ≠ handle) := by
    intro a
    by_cases heq : a.handle = handle
    · simp [isLive, Handles.close, heq]
    · simp [isLive, Handles.close, heq]
  rw [hn.live_nodup.erase_eq_filter, live, live, List.filter_map, List.filter_filter]
  congr 1
  refine List.filter_congr fun a _ => ?_
  by_cases heq : a.handle = handle
  · simp [hlive a, heq]
  · simp [hlive a, heq]

omit [DecidableEq H] in
/-- A free handle is nobody's. -/
theorem notMem_live (hfree : h.opened handle = none) : handle ∉ h.live accepted := by
  intro hmem
  obtain ⟨a, -, hopened, hhandle⟩ := mem_live_iff.mp hmem
  rw [hhandle, hfree] at hopened
  cases hopened

/-- A connection that is closed as soon as it has come. -/
theorem Numbered.live_refuse (hn : h.Numbered accepted) (hfree : h.opened handle = none) :
    ((h.take handle).close handle).live (accepted ++ [⟨h.next, handle⟩]) = h.live accepted := by
  rw [(hn.take handle).live_close, hn.live_take hfree,
    List.erase_append_right _ (notMem_live hfree)]
  simp

/-- Closing a connection that is open changes nothing for the others. -/
theorem isLive_close {a b : Accepted H} (ha : h.isLive a = true) (hne : b.conn ≠ a.conn) :
    (h.close a.handle).isLive b = h.isLive b := by
  by_cases heq : b.handle = a.handle
  · have hopened := of_decide_eq_true ha
    have hother : a.conn ≠ b.conn := hne.symm
    simp [isLive, Handles.close, heq, hopened, hother]
  · simp [isLive, Handles.close, heq]

end Facts

end Handles

end LinuxCodeDemos.Lib

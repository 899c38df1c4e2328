/-
  LinuxCodeDemos.Lib.Chain

  Doubly linked lists of nodes in a store, between null pointers.

  `Seg s prev head xs tail` says that the nodes of `xs` are linked in this order: `head` leads to
  the first, the last leads to `tail`, and the first leads back to `prev`.  A list is a segment
  between null pointers.  A segment depends on its own nodes alone (`Seg.congr`).

  - `Seg.find_eq`: a walk comes to the first node that is looked for; `Seg.walk_eq`: or to all of
    them.
  - `Seg.pushFront`: a node that is put in front.
  - `Seg.unlink`: a node that is taken out, wherever it stands.
-/

import Mathlib.Data.List.Basic
import Mathlib.Logic.Function.Basic

namespace LinuxCodeDemos.Lib

variable {α : Type}

/-- A node and its neighbours; `none` is the null pointer. -/
structure Node (α : Type) where
  item : α
  next : Option Nat
  prev : Option Nat
  deriving DecidableEq, Repr

/-- The allocated nodes by address. -/
abbrev Nodes (α : Type) := Nat → Option (Node α)

namespace Nodes

/-- A store into a node; `none` if the pointer leads to no node. -/
def modify (s : Nodes α) (a : Nat) (f : Node α → Node α) : Option (Nodes α) :=
  match s a with
  | none => none
  | some node => some (Function.update s a (some (f node)))

/-- A store into a node, if there is one. -/
def modifyAt (s : Nodes α) (p : Option Nat) (f : Node α → Node α) : Option (Nodes α) :=
  match p with
  | none => some s
  | some a => s.modify a f

/-- The first node from `p` on whose item is looked for; `none` if the walk comes to no node or
    not to its end. -/
def find (s : Nodes α) (looked : α → Bool) : Nat → Option Nat → Option (Option Nat)
  | _, none => some none
  | 0, some _ => none
  | fuel + 1, some a =>
      match s a with
      | none => none
      | some node => if looked node.item then some (some a) else find s looked fuel node.next

/-- All nodes from `p` on with their addresses; `none` as for `find`. -/
def walk (s : Nodes α) : Nat → Option Nat → Option (List (Nat × α))
  | _, none => some []
  | 0, some _ => none
  | fuel + 1, some a =>
      match s a with
      | none => none
      | some node => (walk s fuel node.next).map fun rest => (a, node.item) :: rest

/-- The node at `a` becomes the first before `head`. -/
def pushFront (s : Nodes α) (a : Nat) (head : Option Nat) : Option (Nodes α) := do
  let s ← s.modify a fun node => { node with prev := none, next := head }
  s.modifyAt head fun node => { node with prev := some a }

/-- The node at `a` leaves the list that `head` leads to; the new head and the nodes. -/
def unlink (s : Nodes α) (a : Nat) (head : Option Nat) : Option (Option Nat × Nodes α) := do
  let node ← s a
  let s ← s.modifyAt node.next fun next => { next with prev := node.prev }
  match node.prev with
  | some p => do
      let s ← s.modify p fun prev => { prev with next := node.next }
      some (head, s)
  | none => some (node.next, s)

theorem modify_eq {s : Nodes α} {a : Nat} {node : Node α} (h : s a = some node)
    (f : Node α → Node α) : s.modify a f = some (Function.update s a (some (f node))) := by
  rw [modify, h]

end Nodes

-- ============================================================================
-- Segments
-- ============================================================================

/-- The nodes of `xs`, linked in this order. -/
def Seg (s : Nodes α) : Option Nat → Option Nat → List (Nat × α) → Option Nat → Prop
  | _, head, [], tail => head = tail
  | prev, head, (a, x) :: xs, tail =>
      head = some a ∧ ∃ next, s a = some { item := x, next, prev } ∧ Seg s (some a) next xs tail

/-- What the node behind the segment leads back to. -/
def lastOf (prev : Option Nat) : List (Nat × α) → Option Nat
  | [] => prev
  | (a, _) :: xs => lastOf (some a) xs

theorem lastOf_cons (prev : Option Nat) (e : Nat × α) (xs : List (Nat × α)) :
    ∃ d ∈ (e :: xs).map Prod.fst, lastOf prev (e :: xs) = some d := by
  induction xs generalizing prev e with
  | nil => exact ⟨e.1, List.mem_cons_self .., rfl⟩
  | cons f xs ih =>
      obtain ⟨d, hmem, hlast⟩ := ih (some e.1) f
      exact ⟨d, List.mem_cons_of_mem _ hmem, hlast⟩

namespace Seg

variable {s s' : Nodes α} {prev head tail : Option Nat} {xs ys : List (Nat × α)}

/-- A segment depends on its own nodes. -/
theorem congr (h : Seg s prev head xs tail) (hsame : ∀ a ∈ xs.map Prod.fst, s' a = s a) :
    Seg s' prev head xs tail := by
  induction xs generalizing prev head with
  | nil => exact h
  | cons e xs ih =>
      obtain ⟨hhead, next, hnode, hrest⟩ := h
      refine ⟨hhead, next, ?_, ih hrest fun a ha => hsame a (List.mem_cons_of_mem _ ha)⟩
      rw [hsame e.1 (List.mem_cons_self ..)]
      exact hnode

/-- A store outside a segment. -/
theorem update (h : Seg s prev head xs tail) {a : Nat} (ha : a ∉ xs.map Prod.fst)
    (node : Option (Node α)) : Seg (Function.update s a node) prev head xs tail :=
  h.congr fun b hb => Function.update_of_ne (fun hba : b = a => ha (hba ▸ hb)) ..

theorem append_iff : Seg s prev head (xs ++ ys) tail ↔
    ∃ mid, Seg s prev head xs mid ∧ Seg s (lastOf prev xs) mid ys tail := by
  induction xs generalizing prev head with
  | nil => exact ⟨fun h => ⟨head, rfl, h⟩, fun ⟨mid, hmid, h⟩ => hmid ▸ h⟩
  | cons e xs ih =>
      constructor
      · rintro ⟨hhead, next, hnode, hrest⟩
        obtain ⟨mid, hfront, hback⟩ := ih.mp hrest
        exact ⟨mid, ⟨hhead, next, hnode, hfront⟩, hback⟩
      · rintro ⟨mid, ⟨hhead, next, hnode, hfront⟩, hback⟩
        exact ⟨hhead, next, hnode, ih.mpr ⟨mid, hfront, hback⟩⟩

/-- Every element has its node. -/
theorem node (h : Seg s prev head xs tail) {e : Nat × α} (he : e ∈ xs) :
    ∃ next before, s e.1 = some { item := e.2, next, prev := before } := by
  induction xs generalizing prev head with
  | nil => cases he
  | cons f xs ih =>
      obtain ⟨-, next, hnode, hrest⟩ := h
      rcases List.mem_cons.mp he with rfl | he
      · exact ⟨next, prev, hnode⟩
      · exact ih hrest he

theorem head_eq (h : Seg s prev head xs none) : head = xs.head?.map Prod.fst := by
  cases xs with
  | nil => exact h
  | cons e xs => exact h.1

/-- A walk comes to the first node that is looked for. -/
theorem find_eq (h : Seg s prev head xs none) (looked : α → Bool) {fuel : Nat}
    (hfuel : xs.length ≤ fuel) :
    s.find looked fuel head = some ((xs.find? fun e => looked e.2).map Prod.fst) := by
  induction xs generalizing prev head fuel with
  | nil =>
      obtain rfl := h
      cases fuel <;> rfl
  | cons e xs ih =>
      obtain ⟨rfl, next, hnode, hrest⟩ := h
      cases fuel with
      | zero => cases hfuel
      | succ fuel =>
          rw [Nodes.find, hnode]
          show (if looked e.2 then _ else _) = _
          cases hlooked : looked e.2 with
          | true => rw [if_pos rfl, List.find?_cons, hlooked, Option.map_some]
          | false =>
              rw [if_neg Bool.false_ne_true, List.find?_cons, hlooked]
              exact ih hrest (Nat.le_of_succ_le_succ hfuel)

/-- A walk comes to all nodes. -/
theorem walk_eq (h : Seg s prev head xs none) {fuel : Nat} (hfuel : xs.length ≤ fuel) :
    s.walk fuel head = some xs := by
  induction xs generalizing prev head fuel with
  | nil =>
      obtain rfl := h
      cases fuel <;> rfl
  | cons e xs ih =>
      obtain ⟨rfl, next, hnode, hrest⟩ := h
      cases fuel with
      | zero => cases hfuel
      | succ fuel =>
          rw [Nodes.walk, hnode]
          show (s.walk fuel next).map _ = _
          rw [ih hrest (Nat.le_of_succ_le_succ hfuel), Option.map_some]

/-- The first node gets another node before it. -/
theorem setPrev {a : Nat} {x : α} (h : Seg s prev head ((a, x) :: xs) tail)
    (hnodup : (((a, x) :: xs).map Prod.fst).Nodup) (before : Option Nat) :
    ∃ s', s.modify a (fun node => { node with prev := before }) = some s' ∧
      Seg s' before head ((a, x) :: xs) tail ∧ ∀ b, b ≠ a → s' b = s b := by
  obtain ⟨hhead, next, hnode, hrest⟩ := h
  refine ⟨_, Nodes.modify_eq hnode _, ⟨hhead, next, Function.update_self .., ?_⟩,
    fun b hb => Function.update_of_ne hb ..⟩
  exact hrest.update (List.nodup_cons.mp hnodup).1 _

/-- The last node gets another node behind it. -/
theorem setNext {last : Nat} (h : Seg s prev head xs tail) (hnodup : (xs.map Prod.fst).Nodup)
    (hne : xs ≠ []) (hlast : lastOf prev xs = some last) (behind : Option Nat) :
    ∃ s', s.modify last (fun node => { node with next := behind }) = some s' ∧
      Seg s' prev head xs behind ∧ ∀ b, b ≠ last → s' b = s b := by
  induction xs generalizing prev head with
  | nil => exact absurd rfl hne
  | cons e xs ih =>
      obtain ⟨hhead, next, hnode, hrest⟩ := h
      cases xs with
      | nil =>
          obtain rfl := Option.some.inj hlast
          exact ⟨_, Nodes.modify_eq hnode _, ⟨hhead, behind, Function.update_self .., rfl⟩,
            fun b hb => Function.update_of_ne hb ..⟩
      | cons f xs =>
          obtain ⟨s', hmodify, hseg, hsame⟩ :=
            ih hrest (List.nodup_cons.mp hnodup).2 (List.cons_ne_nil _ _) hlast
          refine ⟨s', hmodify, ⟨hhead, next, ?_, hseg⟩, hsame⟩
          obtain ⟨d, hmem, hd⟩ := lastOf_cons (some e.1) f xs
          have hne : e.1 ≠ last := by
            rintro rfl
            obtain rfl := Option.some.inj (hd.symm.trans hlast)
            exact (List.nodup_cons.mp hnodup).1 hmem
          rw [hsame e.1 hne]
          exact hnode

/-- A node that is put in front of a list. -/
theorem pushFront {a : Nat} {node : Node α} (h : Seg s none head xs none)
    (hnodup : (xs.map Prod.fst).Nodup) (ha : a ∉ xs.map Prod.fst) (hnode : s a = some node) :
    ∃ s', s.pushFront a head = some s' ∧ Seg s' none (some a) ((a, node.item) :: xs) none ∧
      ∀ b, b ≠ a → b ∉ xs.map Prod.fst → s' b = s b := by
  have hkept := h.update ha (some { node with prev := none, next := head })
  rw [Nodes.pushFront, Nodes.modify_eq hnode]
  cases xs with
  | nil =>
      obtain rfl := h
      exact ⟨_, rfl, ⟨rfl, none, Function.update_self .., rfl⟩,
        fun b hb _ => Function.update_of_ne hb ..⟩
  | cons e xs =>
      obtain ⟨s', hmodify, hseg, hsame⟩ := hkept.setPrev hnodup (some a)
      obtain rfl : head = some e.1 := h.1
      refine ⟨s', hmodify, ⟨rfl, some e.1, ?_, hseg⟩, ?_⟩
      · have hae : a ≠ e.1 := fun hae => ha (hae ▸ List.mem_cons_self ..)
        rw [hsame a hae, Function.update_self]
      · intro b hb hbs
        rw [hsame b fun hbe => hbs (hbe ▸ List.mem_cons_self ..), Function.update_of_ne hb]

/-- A node that is taken out of a list. -/
theorem unlink {a : Nat} {x : α} (h : Seg s none head (xs ++ (a, x) :: ys) none)
    (hnodup : ((xs ++ (a, x) :: ys).map Prod.fst).Nodup) :
    ∃ head' s', s.unlink a head = some (head', s') ∧ Seg s' none head' (xs ++ ys) none ∧
      ∀ b, b ∉ (xs ++ ys).map Prod.fst → s' b = s b := by
  obtain ⟨mid, hfront, rfl, next, hnode, hback⟩ := append_iff.mp h
  rw [List.map_append, List.map_cons] at hnodup
  obtain ⟨hxs, hys, hdisjoint⟩ := List.nodup_append.mp hnodup
  have hys' := (List.nodup_cons.mp hys).2
  -- behind the node
  obtain ⟨s₁, hnext, hback₁, hsame₁⟩ : ∃ s₁,
      s.modifyAt next (fun node => { node with prev := lastOf none xs }) = some s₁ ∧
        Seg s₁ (lastOf none xs) next ys none ∧ ∀ b, b ∉ ys.map Prod.fst → s₁ b = s b := by
    cases ys with
    | nil =>
        obtain rfl := hback
        exact ⟨s, rfl, rfl, fun _ _ => rfl⟩
    | cons e ys =>
        obtain ⟨s₁, hmodify, hseg, hsame⟩ := hback.setPrev hys' (lastOf none xs)
        obtain rfl : next = some e.1 := hback.1
        exact ⟨s₁, hmodify, hseg, fun b hb => hsame b fun hbe => hb (hbe ▸ List.mem_cons_self ..)⟩
  have hfront₁ : Seg s₁ none head xs (some a) := hfront.congr fun b hb =>
    hsame₁ b fun hb' => hdisjoint b hb b (List.mem_cons_of_mem _ hb') rfl
  rw [Nodes.unlink, hnode]
  simp only [Option.bind_eq_bind, Option.bind_some, hnext]
  -- before it
  cases xs with
  | nil =>
      refine ⟨next, s₁, rfl, hback₁, fun b hb => hsame₁ b ?_⟩
      rwa [List.nil_append] at hb
  | cons e xs =>
      obtain ⟨p, hmem, hlast⟩ := lastOf_cons none e xs
      obtain ⟨s₂, hmodify, hseg, hsame₂⟩ :=
        hfront₁.setNext hxs (List.cons_ne_nil _ _) hlast next
      rw [hlast]
      simp only [hmodify, Option.bind_some]
      refine ⟨head, s₂, rfl, append_iff.mpr ⟨next, hseg, hback₁.congr fun b hb => ?_⟩,
        fun b hb => ?_⟩
      · refine hsame₂ b ?_
        rintro rfl
        exact hdisjoint _ hmem _ (List.mem_cons_of_mem _ hb) rfl
      · rw [List.map_append, List.mem_append, not_or] at hb
        rw [hsame₂ b fun hbp => hb.1 (hbp ▸ hmem), hsame₁ b hb.2]

end Seg

end LinuxCodeDemos.Lib

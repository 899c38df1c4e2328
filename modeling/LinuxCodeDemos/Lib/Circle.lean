/-
  LinuxCodeDemos.Lib.Circle

  Circular doubly linked lists: a head and the elements after it, each linked to the one behind it
  and the one before it.

  `Circle r head xs` says that the links lead from the head through `xs` and back to the head, in
  both directions.  An element can be put behind the head (`Circle.append`) and taken out wherever
  it stands (`Circle.detach`); `Circle.walk_eq` is a walk around the circle.
-/

import Mathlib.Data.List.Chain
import Mathlib.Data.List.Nodup
import Mathlib.Logic.Function.Basic

namespace LinuxCodeDemos.Lib

/-- The links of all elements; `none` is the null pointer. -/
structure Links (P : Type) where
  succ : P → Option P
  pred : P → Option P

variable {P : Type}

namespace Links

section Changes

variable [DecidableEq P]

def setSucc (r : Links P) (p : P) (q : Option P) : Links P :=
  { r with succ := Function.update r.succ p q }

def setPred (r : Links P) (p : P) (q : Option P) : Links P :=
  { r with pred := Function.update r.pred p q }

/-- A head without elements. -/
def init (r : Links P) (ring : P) : Links P :=
  (r.setSucc ring (some ring)).setPred ring (some ring)

/-- The entry is put behind the head. -/
def append (r : Links P) (ring entry : P) : Option (Links P) := do
  let r := r.setSucc entry (r.succ ring)
  let r := r.setPred entry (some ring)
  let s ← r.succ ring
  let r := r.setPred s (some entry)
  some (r.setSucc ring (some entry))

/-- The entry is taken out. -/
def detach (r : Links P) (entry : P) : Option (Links P) := do
  let s ← r.succ entry
  let p ← r.pred entry
  let r := (r.setSucc p (some s)).setPred s (some p)
  some ((r.setSucc entry none).setPred entry none)

/-- The elements behind `p` up to the head; `none` if the walk does not come to it. -/
def walk (r : Links P) (ring : P) : Nat → P → Option (List P)
  | 0, _ => none
  | fuel + 1, p =>
      match r.succ p with
      | none => none
      | some q => if q = ring then some [] else (walk r ring fuel q).map fun rest => q :: rest

@[simp] theorem setSucc_succ (r : Links P) (p : P) (q : Option P) :
    (r.setSucc p q).succ = Function.update r.succ p q := rfl

@[simp] theorem setSucc_pred (r : Links P) (p : P) (q : Option P) : (r.setSucc p q).pred = r.pred :=
  rfl

@[simp] theorem setPred_succ (r : Links P) (p : P) (q : Option P) : (r.setPred p q).succ = r.succ :=
  rfl

@[simp] theorem setPred_pred (r : Links P) (p : P) (q : Option P) :
    (r.setPred p q).pred = Function.update r.pred p q := rfl

end Changes

/-- One element stands behind the other. -/
def Next (r : Links P) (a b : P) : Prop := r.succ a = some b ∧ r.pred b = some a

end Links

variable {r r' : Links P}

/-- A path depends on the links between its elements. -/
theorem isChain_next_congr {xs : List P} (h : xs.IsChain r.Next)
    (hsucc : ∀ a ∈ xs.dropLast, r'.succ a = r.succ a) (hpred : ∀ a ∈ xs.tail, r'.pred a = r.pred a) :
    xs.IsChain r'.Next := by
  induction xs with
  | nil => exact .nil
  | cons a xs ih =>
      cases xs with
      | nil => exact .singleton a
      | cons b xs =>
          obtain ⟨hab, hrest⟩ := List.isChain_cons_cons.mp h
          refine List.isChain_cons_cons.mpr ⟨⟨?_, ?_⟩, ih hrest ?_ ?_⟩
          · rw [hsucc a (List.mem_cons_self ..)]
            exact hab.1
          · rw [hpred b (List.mem_cons_self ..)]
            exact hab.2
          · exact fun c hc => hsucc c (List.mem_cons_of_mem _ hc)
          · exact fun c hc => hpred c (List.mem_cons_of_mem _ hc)

/-- The head, the elements `xs` behind it, and the head again. -/
structure Circle (r : Links P) (head : P) (xs : List P) : Prop where
  path : (head :: (xs ++ [head])).IsChain r.Next
  nodup : (head :: xs).Nodup

namespace Circle

variable {head e : P} {xs ys : List P}

/-- The two parts of a circle. -/
theorem split_iff : Circle r head (xs ++ ys) ↔
    (head :: xs).IsChain r.Next ∧ (ys ++ [head]).IsChain r.Next ∧
      (∀ a ∈ (head :: xs).getLast?, ∀ b ∈ (ys ++ [head]).head?, r.Next a b) ∧
      (head :: xs ++ ys).Nodup := by
  constructor
  · rintro ⟨hpath, hnodup⟩
    rw [List.append_assoc, ← List.cons_append] at hpath
    obtain ⟨hfront, hback, hjoin⟩ := List.isChain_append.mp hpath
    exact ⟨hfront, hback, hjoin, hnodup⟩
  · rintro ⟨hfront, hback, hjoin, hnodup⟩
    refine ⟨?_, hnodup⟩
    rw [List.append_assoc, ← List.cons_append]
    exact List.isChain_append.mpr ⟨hfront, hback, hjoin⟩

section Seam

variable {p s : P} (hp : (head :: xs).getLast? = some p) (hs : (ys ++ [head]).head? = some s)
include hp hs

/-- New links behind the one part, before the other and at an element in neither leave the parts
    alone. -/
theorem parts_congr (hfront : (head :: xs).IsChain r.Next) (hback : (ys ++ [head]).IsChain r.Next)
    (hnodup : (head :: xs ++ ys).Nodup) (he : e ∉ head :: xs ++ ys)
    (hsucc : ∀ a, a ≠ p → a ≠ e → r'.succ a = r.succ a)
    (hpred : ∀ a, a ≠ s → a ≠ e → r'.pred a = r.pred a) :
    (head :: xs).IsChain r'.Next ∧ (ys ++ [head]).IsChain r'.Next := by
  obtain ⟨hxs, hys, hapart⟩ := List.nodup_append.mp hnodup
  obtain ⟨zs, hzs⟩ := List.getLast?_eq_some_iff.mp hp
  obtain ⟨ws, hws⟩ := List.head?_eq_some_iff.mp hs
  have hpmem : p ∈ head :: xs := hzs ▸ List.mem_append_right _ (List.mem_singleton_self p)
  have hsmem : s ∈ ys ++ [head] := hws ▸ List.mem_cons_self ..
  have hring : (ys ++ [head]).Nodup := List.nodup_append.mpr ⟨hys, List.nodup_singleton head,
    fun b hb c hc hbc => hapart head (List.mem_cons_self ..) b hb
      ((List.mem_singleton.mp hc).symm.trans hbc.symm)⟩
  constructor
  · refine isChain_next_congr hfront (fun a ha => hsucc a ?_ ?_) fun a ha => hpred a ?_ ?_
    · rintro rfl
      rw [hzs, List.dropLast_concat] at ha
      rw [hzs] at hxs
      exact (List.nodup_append.mp hxs).2.2 a ha a (List.mem_singleton_self a) rfl
    · rintro rfl
      exact he (List.mem_append_left _ (List.dropLast_subset _ ha))
    · rintro rfl
      rcases List.mem_append.mp hsmem with hmem | hmem
      · exact hapart a (List.mem_cons_of_mem _ ha) a hmem rfl
      · obtain rfl := List.mem_singleton.mp hmem
        exact (List.nodup_cons.mp hxs).1 ha
    · rintro rfl
      exact he (List.mem_append_left _ (List.mem_cons_of_mem _ ha))
  · refine isChain_next_congr hback (fun a ha => hsucc a ?_ ?_) fun a ha => hpred a ?_ ?_
    · rintro rfl
      rw [List.dropLast_concat] at ha
      exact hapart a hpmem a ha rfl
    · rintro rfl
      rw [List.dropLast_concat] at ha
      exact he (List.mem_append_right _ ha)
    · rintro rfl
      rw [hws] at hring ha
      exact (List.nodup_cons.mp hring).1 ha
    · rintro rfl
      rcases List.mem_append.mp (List.mem_of_mem_tail ha) with ha | ha
      · exact he (List.mem_append_right _ ha)
      · exact he (List.mem_append_left _ (List.mem_singleton.mp ha ▸ List.mem_cons_self ..))

/-- A new element between two parts. -/
theorem insert (h : Circle r head (xs ++ ys)) (he : e ∉ head :: xs ++ ys)
    (hpe : r'.Next p e) (hes : r'.Next e s) (hsucc : ∀ a, a ≠ p → a ≠ e → r'.succ a = r.succ a)
    (hpred : ∀ a, a ≠ s → a ≠ e → r'.pred a = r.pred a) : Circle r' head (xs ++ e :: ys) := by
  obtain ⟨hfront, hback, -, hnodup⟩ := split_iff.mp h
  obtain ⟨hfront', hback'⟩ := parts_congr hp hs hfront hback hnodup he hsucc hpred
  obtain ⟨ws, hws⟩ := List.head?_eq_some_iff.mp hs
  refine split_iff.mpr ⟨hfront', ?_, fun a ha b hb => ?_,
    List.perm_middle.nodup_iff.mpr (List.nodup_cons.mpr ⟨he, hnodup⟩)⟩
  · rw [List.cons_append, hws]
    exact List.isChain_cons_cons.mpr ⟨hes, hws ▸ hback'⟩
  · obtain rfl : p = a := Option.some.inj (hp.symm.trans ha)
    obtain rfl : e = b := Option.some.inj hb
    exact hpe

/-- An element between two parts that is taken out. -/
theorem remove (h : Circle r head (xs ++ e :: ys)) (hps : r'.Next p s)
    (hsucc : ∀ a, a ≠ p → a ≠ e → r'.succ a = r.succ a)
    (hpred : ∀ a, a ≠ s → a ≠ e → r'.pred a = r.pred a) : Circle r' head (xs ++ ys) := by
  obtain ⟨hfront, hback, -, hnodup⟩ := split_iff.mp h
  obtain ⟨he, hnodup'⟩ := List.nodup_cons.mp (List.perm_middle.nodup_iff.mp hnodup)
  rw [List.cons_append] at hback
  obtain ⟨hfront', hback'⟩ := parts_congr hp hs hfront hback.tail hnodup' he hsucc hpred
  refine split_iff.mpr ⟨hfront', hback', fun a ha b hb => ?_, hnodup'⟩
  obtain rfl : p = a := Option.some.inj (hp.symm.trans ha)
  obtain rfl : s = b := Option.some.inj (hs.symm.trans hb)
  exact hps

end Seam

/-- The neighbours of an element. -/
theorem neighbours (h : Circle r head (xs ++ e :: ys)) :
    ∃ p s, (head :: xs).getLast? = some p ∧ (ys ++ [head]).head? = some s ∧ r.Next p e ∧
      r.Next e s := by
  obtain ⟨-, hback, hjoin, -⟩ := split_iff.mp h
  obtain ⟨p, hp⟩ : ∃ p, (head :: xs).getLast? = some p :=
    ⟨_, List.getLast?_eq_some_getLast (List.cons_ne_nil _ _)⟩
  obtain ⟨s, ws, hws⟩ : ∃ s ws, ys ++ [head] = s :: ws := by
    cases ys with
    | nil => exact ⟨head, [], rfl⟩
    | cons y ys => exact ⟨y, ys ++ [head], rfl⟩
  refine ⟨p, s, hp, by rw [hws]; rfl, hjoin p hp e rfl, ?_⟩
  rw [List.cons_append, hws] at hback
  exact (List.isChain_cons_cons.mp hback).1

/-- The element behind the head. -/
theorem succ_head (h : Circle r head xs) : r.succ head = some (xs.head?.getD head) := by
  cases xs with
  | nil => exact (List.isChain_cons_cons.mp h.path).1.1
  | cons x xs => exact (List.isChain_cons_cons.mp h.path).1.1

/-- The element before the head. -/
theorem pred_head (h : Circle r head xs) : r.pred head = some (xs.getLast?.getD head) := by
  have h' : Circle r head (xs ++ []) := by rwa [List.append_nil]
  obtain ⟨-, -, hjoin, -⟩ := split_iff.mp h'
  refine (hjoin _ ?_ head rfl).2
  cases xs with
  | nil => rfl
  | cons x xs =>
      rw [List.getLast?_cons_cons, List.getLast?_eq_some_getLast (List.cons_ne_nil _ _)]
      rfl

section Changes

variable [DecidableEq P]

theorem init (r : Links P) (head : P) : Circle (r.init head) head [] where
  path := List.isChain_pair.mpr ⟨Function.update_self .., Function.update_self ..⟩
  nodup := List.nodup_singleton head

/-- A new first element. -/
theorem append (h : Circle r head xs) (he : e ∉ head :: xs) :
    ∃ r', r.append head e = some r' ∧ Circle r' head (e :: xs) := by
  have hne : e ≠ head := fun heq => he (heq ▸ List.mem_cons_self ..)
  obtain ⟨s, hs⟩ : ∃ s, (xs ++ [head]).head? = some s := by
    cases xs with
    | nil => exact ⟨head, rfl⟩
    | cons x xs => exact ⟨x, rfl⟩
  have hsucc : r.succ head = some s := by
    rw [h.succ_head, ← hs]
    cases xs <;> rfl
  have hse : s ≠ e := by
    rintro rfl
    have hmem := List.mem_of_head? hs
    rcases List.mem_append.mp hmem with hmem | hmem
    · exact he (List.mem_cons_of_mem _ hmem)
    · exact hne (List.mem_singleton.mp hmem)
  rw [Links.append]
  simp only [Links.setSucc_succ, Links.setPred_succ, hsucc, Function.update_of_ne (Ne.symm hne),
    Option.bind_eq_bind, Option.bind_some]
  have hp : [head].getLast? = some head := rfl
  refine ⟨_, rfl, insert hp hs h he ⟨?_, ?_⟩ ⟨?_, ?_⟩ (fun a ha hae => ?_) fun a ha hae => ?_⟩
  · exact Function.update_self ..
  · exact (Function.update_of_ne (Ne.symm hse) ..).trans (Function.update_self ..)
  · exact (Function.update_of_ne hne ..).trans (Function.update_self ..)
  · exact Function.update_self ..
  · exact (Function.update_of_ne ha ..).trans (Function.update_of_ne hae ..)
  · exact (Function.update_of_ne ha ..).trans (Function.update_of_ne hae ..)

/-- An element that goes. -/
theorem detach (h : Circle r head (xs ++ e :: ys)) :
    ∃ r', r.detach e = some r' ∧ Circle r' head (xs ++ ys) := by
  obtain ⟨p, s, hp, hs, hpe, hes⟩ := h.neighbours
  obtain ⟨-, -, -, hnodup⟩ := split_iff.mp h
  obtain ⟨he, -⟩ := List.nodup_cons.mp (List.perm_middle.nodup_iff.mp hnodup)
  have hpne : p ≠ e := fun heq => he (heq ▸ List.mem_append_left _ (List.mem_of_getLast? hp))
  have hsne : s ≠ e := by
    rintro rfl
    rcases List.mem_append.mp (List.mem_of_head? hs) with hmem | hmem
    · exact he (List.mem_append_right _ hmem)
    · exact he (List.mem_append_left _ (List.mem_singleton.mp hmem ▸ List.mem_cons_self ..))
  rw [Links.detach, hes.1]
  simp only [hpe.2, Option.bind_eq_bind, Option.bind_some]
  refine ⟨_, rfl, remove hp hs h ⟨?_, ?_⟩ (fun a ha hae => ?_) fun a ha hae => ?_⟩
  · exact (Function.update_of_ne hpne ..).trans (Function.update_self ..)
  · exact (Function.update_of_ne hsne ..).trans (Function.update_self ..)
  · exact (Function.update_of_ne hae ..).trans (Function.update_of_ne ha ..)
  · exact (Function.update_of_ne hae ..).trans (Function.update_of_ne ha ..)

/-- A walk around comes to all elements. -/
theorem walk_eq (h : Circle r head xs) {fuel : Nat} (hfuel : xs.length < fuel) :
    r.walk head fuel head = some xs := by
  have hpath : ∀ (p : P) (ys : List P) (fuel : Nat), (p :: (ys ++ [head])).IsChain r.Next →
      head ∉ ys → ys.length < fuel → r.walk head fuel p = some ys := by
    intro p ys
    induction ys generalizing p with
    | nil =>
        intro fuel hpath _ hfuel
        cases fuel with
        | zero => cases hfuel
        | succ fuel =>
            rw [Links.walk, (List.isChain_cons_cons.mp hpath).1.1]
            exact if_pos rfl
    | cons y ys ih =>
        intro fuel hpath hhead hfuel
        cases fuel with
        | zero => cases hfuel
        | succ fuel =>
            obtain ⟨hnext, hrest⟩ := List.isChain_cons_cons.mp hpath
            rw [Links.walk, hnext.1]
            show (if y = head then _ else _) = _
            rw [if_neg fun hy : y = head => hhead (hy ▸ List.mem_cons_self ..),
              ih y fuel hrest (fun hmem => hhead (List.mem_cons_of_mem _ hmem))
                (Nat.lt_of_succ_lt_succ hfuel)]
            rfl
  exact hpath head xs fuel h.path (List.nodup_cons.mp h.nodup).1 hfuel

end Changes

end Circle

end LinuxCodeDemos.Lib

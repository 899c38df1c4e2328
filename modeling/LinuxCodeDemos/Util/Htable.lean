/-
  LinuxCodeDemos.Util.Htable

  The hash table of `htable.c`: entries in doubly linked chains, in a table that doubles when it
  has as many entries as chains.

  - `htable_enter` does not look whether the key is there, so a key may have several entries; they
    are in one chain, and a lookup comes to the first.
  - A new entry goes to the front of its chain.  `htable_grow` takes the chains from the front and
    puts every entry to the front of its new chain, so each growth turns the order of the entries
    of a key around.
-/

import Mathlib.Algebra.Order.Ring.Nat
import Mathlib.Data.List.Perm.Basic
import Mathlib.Data.List.Nodup
import LinuxCodeDemos.Lib.Chain
import LinuxCodeDemos.Lib.Machine
import LinuxCodeDemos.Lib.Run

namespace LinuxCodeDemos.Util

open Lib

-- ============================================================================
-- Definitions
-- ============================================================================

/-- How a call ends that does not return. -/
inductive Stop where
  /-- A pointer that leads to no entry, or a chain that does not end. -/
  | memory
  /-- `msg_panic`. -/
  | panic
  deriving DecidableEq, Repr

/-- A pointer is followed. -/
def deref {β : Type} : Option β → Except Stop β
  | none => .error .memory
  | some b => .ok b

/-- A C string without its NUL. -/
abbrev Key := List UInt8

/-- One turn of `htable_hash`; a `size_t` has 64 bits. -/
def hashTurn (h : Nat) (s : UInt8) : Nat :=
  let h := (h * 16 + s.toNat) % 2 ^ 64
  let g := h &&& 0xf0000000
  if g ≠ 0 then (h ^^^ (g >>> 24)) ^^^ g else h

def htableHash (s : Key) (size : Nat) : Nat := s.foldl hashTurn 0 % size

/-- `HTABLE_INFO` without its links. -/
structure HtableInfo (V : Type) where
  key : Key
  value : V
  deriving DecidableEq, Repr

/-- `HTABLE`, and the entries that are allocated.  From `brk` on no address was given out yet. -/
structure Htable (V : Type) where
  data : List (Option Nat)
  used : Nat
  infos : Nodes (HtableInfo V)
  brk : Nat

variable {V : Type}

/-- `table->size`, which is set together with `table->data`. -/
def Htable.size (t : Htable V) : Nat := t.data.length

/-- `htable_size`. -/
def htableSize (t : Htable V) (size : Nat) : Htable V :=
  { t with data := List.replicate (size ||| 1) none, used := 0 }

/-- `htable_create`. -/
def htableCreate (size : Int) : Htable V :=
  htableSize { data := [], used := 0, infos := fun _ => none, brk := 0 }
    (if size < 13 then 13 else size.toNat)

/-- `htable_link`. -/
def htableLink (t : Htable V) (element : Nat) : Except Stop (Htable V) := do
  let info ← deref (t.infos element)
  let h := htableHash info.item.key t.size
  let head ← deref t.data[h]?
  let infos ← deref (t.infos.pushFront element head)
  .ok { t with infos, data := t.data.set h (some element), used := t.used + 1 }

/-- The inner loop of `htable_grow`. -/
def growChain : Nat → Option Nat → Htable V → Except Stop (Htable V)
  | _, none, t => .ok t
  | 0, some _, _ => .error .memory
  | fuel + 1, some ht, t => do
      let info ← deref (t.infos ht)
      let t ← htableLink t ht
      growChain fuel info.next t

/-- The outer loop of `htable_grow`. -/
def growChains (fuel : Nat) : List (Option Nat) → Htable V → Except Stop (Htable V)
  | [], t => .ok t
  | h :: hs, t => do
      let t ← growChain fuel h t
      growChains fuel hs t

/-- `htable_grow`. -/
def htableGrow (t : Htable V) : Except Stop (Htable V) :=
  growChains t.used t.data (htableSize t (2 * t.size))

/-- The table with room for an entry. -/
def growIfFull (t : Htable V) : Except Stop (Htable V) :=
  if t.used ≥ t.size then htableGrow t else .ok t

/-- `htable_enter`: the new entry, and the table. -/
def htableEnter (t : Htable V) (key : Key) (value : V) : Except Stop (Nat × Htable V) := do
  let t ← growIfFull t
  let ht := t.brk
  let info : Node (HtableInfo V) := { item := { key, value }, next := none, prev := none }
  let t ← htableLink { t with infos := Function.update t.infos ht (some info), brk := ht + 1 } ht
  .ok (ht, t)

/-- `htable_locate`. -/
def htableLocate (t : Htable V) (key : Key) : Except Stop (Option Nat) := do
  let head ← deref t.data[htableHash key t.size]?
  deref (t.infos.find (fun info => info.key = key) t.used head)

/-- `htable_find`; `none` is the null pointer. -/
def htableFind (t : Htable V) (key : Key) : Except Stop (Option V) := do
  match ← htableLocate t key with
  | none => .ok none
  | some ht => do
      let info ← deref (t.infos ht)
      .ok (some info.item.value)

/-- `htable_delete`: the table, and the value that `free_fn` gets. -/
def htableDelete (t : Htable V) (key : Key) : Except Stop (Htable V × V) := do
  let h := htableHash key t.size
  let head ← deref t.data[h]?
  match ← htableLocate t key with
  | none => .error .panic
  | some ht => do
      let info ← deref (t.infos ht)
      let (head, infos) ← deref (t.infos.unlink ht head)
      .ok ({ t with infos := Function.update infos ht none, data := t.data.set h head,
                    used := t.used - 1 }, info.item.value)

/-- All entries, chain by chain. -/
def walkChains (infos : Nodes (HtableInfo V)) (fuel : Nat) :
    List (Option Nat) → Except Stop (List (Nat × HtableInfo V))
  | [] => .ok []
  | h :: hs => do
      let chain ← deref (infos.walk fuel h)
      let rest ← walkChains infos fuel hs
      .ok (chain ++ rest)

/-- `htable_list`. -/
def htableList (t : Htable V) : Except Stop (List Nat) := do
  let members ← walkChains t.infos t.used t.data
  .ok (members.map Prod.fst)

/-- `htable_walk`: what `action` gets, in this order. -/
def htableWalk (t : Htable V) : Except Stop (List (HtableInfo V)) := do
  let members ← walkChains t.infos t.used t.data
  .ok (members.map Prod.snd)

/-- `htable_free`: the values that `free_fn` gets. -/
def htableFree (t : Htable V) : Except Stop (List V) := do
  let members ← walkChains t.infos t.used t.data
  .ok (members.map fun member => member.2.value)

-- ============================================================================
-- The calls of a program, and what they come to
-- ============================================================================

inductive HtableOp (V : Type) where
  | enter (key : Key) (value : V)
  | find (key : Key)
  | delete (key : Key)
  deriving DecidableEq, Repr

inductive HtableOut (V : Type) where
  | entered
  | found (value : Option V)
  | deleted (value : V)
  deriving DecidableEq, Repr

def htableStep (t : Htable V) : HtableOp V → Except Stop (Htable V × HtableOut V)
  | .enter key value => do
      let (_, t) ← htableEnter t key value
      .ok (t, .entered)
  | .find key => do
      let value ← htableFind t key
      .ok (t, .found value)
  | .delete key => do
      let (t, value) ← htableDelete t key
      .ok (t, .deleted value)

/-- A list of entries; `size` of them are room for one more without a growth. -/
structure Entries (V : Type) where
  entries : List (HtableInfo V)
  size : Nat
  deriving DecidableEq, Repr

namespace Entries

def start (size : Int) : Entries V :=
  { entries := [], size := (if size < 13 then 13 else size.toNat) ||| 1 }

/-- The first entry of a key counts; a growth turns the order of all entries around. -/
def step (a : Entries V) : HtableOp V → Except Stop (Entries V × HtableOut V)
  | .enter key value =>
      if a.size ≤ a.entries.length then
        .ok ({ entries := { key, value } :: a.entries.reverse, size := 2 * a.size ||| 1 }, .entered)
      else .ok ({ a with entries := { key, value } :: a.entries }, .entered)
  | .find key =>
      .ok (a, .found ((a.entries.find? fun info => info.key = key).map HtableInfo.value))
  | .delete key =>
      match a.entries.find? fun info => info.key = key with
      | none => .error .panic
      | some info =>
          .ok ({ a with entries := a.entries.eraseP fun info => info.key = key },
            .deleted info.value)

end Entries

-- ============================================================================
-- Chains
-- ============================================================================

/-- One list of a family that is joined gets one element more. -/
theorem flatMap_range_perm {β : Type} {f g : Nat → List β} {e : β} {h n : Nat} (hh : h < n)
    (hsame : ∀ i, i ≠ h → f i = g i) (hperm : (f h).Perm (e :: g h)) :
    ((List.range n).flatMap f).Perm (e :: (List.range n).flatMap g) := by
  induction n with
  | zero => cases hh
  | succ n ih =>
      rw [List.range_succ, List.flatMap_append, List.flatMap_append, List.flatMap_singleton,
        List.flatMap_singleton]
      rcases Nat.lt_succ_iff_lt_or_eq.mp hh with hlt | rfl
      · rw [hsame n (Nat.ne_of_gt hlt)]
        exact (ih hlt).append_right _
      · have hbefore : (List.range h).flatMap f = (List.range h).flatMap g :=
          List.flatMap_congr fun i hi => hsame i (Nat.ne_of_lt (List.mem_range.mp hi))
        rw [hbefore]
        exact (hperm.append_left _).trans List.perm_middle

/-- A family of lists of which at most one is not empty. -/
theorem flatMap_range_single {β : Type} {f : Nat → List β} {h n : Nat} (hh : h < n)
    (hnil : ∀ i, i < n → i ≠ h → f i = []) : (List.range n).flatMap f = f h := by
  induction n with
  | zero => cases hh
  | succ n ih =>
      rw [List.range_succ, List.flatMap_append, List.flatMap_singleton]
      rcases Nat.lt_succ_iff_lt_or_eq.mp hh with hlt | rfl
      · rw [ih hlt fun i hi => hnil i (Nat.lt_succ_of_lt hi),
          hnil n (Nat.lt_succ_self n) (Nat.ne_of_gt hlt), List.append_nil]
      · have hbefore : (List.range h).flatMap f = [] :=
          List.flatMap_eq_nil_iff.mpr fun i hi =>
            hnil i (Nat.lt_succ_of_lt (List.mem_range.mp hi)) (Nat.ne_of_lt (List.mem_range.mp hi))
        rw [hbefore, List.nil_append]

/-- An entry of the key. -/
def hasKey (key : Key) (e : Nat × HtableInfo V) : Bool := e.2.key = key

theorem hasKey_eq_true {key : Key} {e : Nat × HtableInfo V} : hasKey key e = true ↔ e.2.key = key :=
  decide_eq_true_iff

/-- The entries of the table are `es`, by address; entries of one key are in the order of a
    lookup. -/
structure Chains (t : Htable V) (chains : Nat → List (Nat × HtableInfo V))
    (es : List (Nat × HtableInfo V)) : Prop where
  size_pos : 0 < t.size
  seg : ∀ h, h < t.size → ∃ head, t.data[h]? = some head ∧ Seg t.infos none head (chains h) none
  hash : ∀ h, h < t.size → ∀ e ∈ chains h, htableHash e.2.key t.size = h
  perm : ((List.range t.size).flatMap chains).Perm es
  order : ∀ key, (chains (htableHash key t.size)).filter (hasKey key)
    = es.filter (hasKey key)
  nodup : (es.map Prod.fst).Nodup
  below : ∀ e ∈ es, e.1 < t.brk
  used : t.used = es.length

theorem htableHash_lt {size : Nat} (h : 0 < size) (key : Key) : htableHash key size < size :=
  Nat.mod_lt _ h

/-- The pointer to the first entry of a chain. -/
def firstOf (xs : List (Nat × HtableInfo V)) : Option Nat := xs.head?.map Prod.fst

namespace Chains

variable {t : Htable V} {chains : Nat → List (Nat × HtableInfo V)} {es : List (Nat × HtableInfo V)}

theorem mem (H : Chains t chains es) {h : Nat} (hh : h < t.size) {e : Nat × HtableInfo V}
    (he : e ∈ chains h) : e ∈ es :=
  H.perm.subset (List.mem_flatMap.mpr ⟨h, List.mem_range.mpr hh, he⟩)

/-- The table as the list of its chains. -/
theorem data_eq (H : Chains t chains es) :
    t.data = ((List.range t.size).map chains).map firstOf := by
  refine List.ext_getElem? fun h => ?_
  rw [List.map_map, List.getElem?_map]
  by_cases hh : h < t.size
  · obtain ⟨head, hdata, hseg⟩ := H.seg h hh
    rw [hdata, List.getElem?_range hh, hseg.head_eq]
    rfl
  · rw [List.getElem?_eq_none (Nat.le_of_not_lt hh),
      List.getElem?_eq_none (by rw [List.length_range]; exact Nat.le_of_not_lt hh)]
    rfl

theorem segs (H : Chains t chains es) :
    ∀ xs ∈ (List.range t.size).map chains, Seg t.infos none (firstOf xs) xs none := by
  intro xs hxs
  obtain ⟨h, hh, rfl⟩ := List.mem_map.mp hxs
  obtain ⟨head, -, hseg⟩ := H.seg h (List.mem_range.mp hh)
  rw [firstOf, ← hseg.head_eq]
  exact hseg

theorem length_le (H : Chains t chains es) {h : Nat} (hh : h < t.size) :
    (chains h).length ≤ t.used := by
  rw [H.used, ← H.perm.length_eq]
  exact (List.sublist_flatten_of_mem (List.mem_map_of_mem (List.mem_range.mpr hh))).length_le

theorem chain_nodup (H : Chains t chains es) {h : Nat} (hh : h < t.size) :
    ((chains h).map Prod.fst).Nodup := by
  refine List.Nodup.sublist (List.Sublist.map _ ?_) ((H.perm.map Prod.fst).nodup_iff.mpr H.nodup)
  exact List.sublist_flatten_of_mem (List.mem_map_of_mem (List.mem_range.mpr hh))

/-- A node is in the chain of its hash only. -/
theorem disjoint (H : Chains t chains es) {h h' : Nat} (hh : h < t.size) (hh' : h' < t.size)
    (hne : h' ≠ h) {b : Nat} (hb : b ∈ (chains h').map Prod.fst) : b ∉ (chains h).map Prod.fst := by
  intro hb'
  obtain ⟨e, he, rfl⟩ := List.mem_map.mp hb
  obtain ⟨e', he', heq⟩ := List.mem_map.mp hb'
  obtain ⟨_, -, hseg⟩ := H.seg h' hh'
  obtain ⟨_, -, hseg'⟩ := H.seg h hh
  obtain ⟨next, before, hnode⟩ := hseg.node he
  obtain ⟨next', before', hnode'⟩ := hseg'.node he'
  rw [heq, hnode] at hnode'
  have hitem : e.2 = e'.2 := congrArg Node.item (Option.some.inj hnode')
  exact hne (by rw [← H.hash h' hh' e he, hitem, H.hash h hh e' he'])

/-- A lookup comes to the first entry of the key. -/
theorem locate (H : Chains t chains es) (key : Key) :
    htableLocate t key = .ok ((es.find? (hasKey key)).map Prod.fst) := by
  have hh := htableHash_lt H.size_pos key
  obtain ⟨head, hdata, hseg⟩ := H.seg _ hh
  rw [htableLocate, hdata]
  show deref (t.infos.find _ t.used head) = _
  rw [hseg.find_eq _ (H.length_le hh)]
  show deref (some (((chains _).find? (hasKey key)).map Prod.fst)) = _
  rw [← List.head?_filter, H.order, List.head?_filter]
  rfl

/-- One chain is replaced. -/
theorem replace (H : Chains t chains es) {h : Nat} (hh : h < t.size) {infos : Nodes (HtableInfo V)}
    {head : Option Nat} {zs es' : List (Nat × HtableInfo V)} {used : Nat}
    (hseg : Seg infos none head zs none) (hhash : ∀ e ∈ zs, htableHash e.2.key t.size = h)
    (hframe : ∀ i, i < t.size → i ≠ h → ∀ b ∈ (chains i).map Prod.fst, infos b = t.infos b)
    (hperm : ((List.range t.size).flatMap (Function.update chains h zs)).Perm es')
    (hsame : ∀ key, htableHash key t.size = h → zs.filter (hasKey key) = es'.filter (hasKey key))
    (hother : ∀ key, htableHash key t.size ≠ h → es.filter (hasKey key) = es'.filter (hasKey key))
    (hnodup : (es'.map Prod.fst).Nodup) (hbelow : ∀ e ∈ es', e.1 < t.brk)
    (hused : used = es'.length) :
    Chains { t with infos, data := t.data.set h head, used } (Function.update chains h zs) es' ∧
      Htable.size { t with infos, data := t.data.set h head, used } = t.size := by
  have hsize : Htable.size { t with infos, data := t.data.set h head, used } = t.size :=
    List.length_set
  refine ⟨?_, hsize⟩
  constructor
  case size_pos =>
    rw [hsize]
    exact H.size_pos
  case seg =>
    intro i hi
    rw [hsize] at hi
    by_cases hne : i = h
    · subst hne
      refine ⟨head, List.getElem?_set_self hi, ?_⟩
      rw [Function.update_self]
      exact hseg
    · obtain ⟨head', hdata', hseg'⟩ := H.seg i hi
      refine ⟨head', (List.getElem?_set_ne (Ne.symm hne)).trans hdata', ?_⟩
      rw [Function.update_of_ne hne]
      exact hseg'.congr (hframe i hi hne)
  case hash =>
    intro i hi e he
    rw [hsize] at hi ⊢
    by_cases hne : i = h
    · subst hne
      rw [Function.update_self] at he
      exact hhash e he
    · rw [Function.update_of_ne hne] at he
      exact H.hash i hi e he
  case perm =>
    rw [hsize]
    exact hperm
  case order =>
    intro key
    rw [hsize]
    by_cases hne : htableHash key t.size = h
    · rw [hne, Function.update_self]
      exact hsame key hne
    · rw [Function.update_of_ne hne, H.order]
      exact hother key hne
  case nodup => exact hnodup
  case below => exact hbelow
  case used => exact hused

theorem addr_mem (H : Chains t chains es) {h b : Nat} (hh : h < t.size)
    (hb : b ∈ (chains h).map Prod.fst) : b ∈ es.map Prod.fst := by
  obtain ⟨e, he, rfl⟩ := List.mem_map.mp hb
  exact List.mem_map_of_mem (H.mem hh he)

/-- An entry that stands in no chain goes to the front of one. -/
theorem link (H : Chains t chains es) {a : Nat} {node : Node (HtableInfo V)}
    (hnode : t.infos a = some node) (ha : a ∉ es.map Prod.fst) (hbrk : a < t.brk) :
    ∃ t' chains', htableLink t a = .ok t' ∧ Chains t' chains' ((a, node.item) :: es) ∧
      t'.size = t.size ∧ t'.brk = t.brk ∧
      ∀ b, b ≠ a → b ∉ es.map Prod.fst → t'.infos b = t.infos b := by
  have hh := htableHash_lt H.size_pos node.item.key
  obtain ⟨head, hdata, hseg⟩ := H.seg _ hh
  obtain ⟨infos, hpush, hseg', hframe⟩ :=
    hseg.pushFront (H.chain_nodup hh) (fun hb => ha (H.addr_mem hh hb)) hnode
  obtain ⟨H', hsize⟩ := H.replace hh hseg'
    (fun e he => by
      rcases List.mem_cons.mp he with rfl | he
      · rfl
      · exact H.hash _ hh e he)
    (fun i hi hne b hb =>
      hframe b (fun hba => ha (hba ▸ H.addr_mem hi hb)) (H.disjoint hh hi hne hb))
    ((flatMap_range_perm hh (fun i hi => Function.update_of_ne hi ..)
      (by rw [Function.update_self])).trans (H.perm.cons (a, node.item)))
    (fun key hkey => by rw [List.filter_cons, List.filter_cons, ← hkey, H.order])
    (fun key hkey => by
      rw [List.filter_cons_of_neg fun h => hkey (by rw [← hasKey_eq_true.mp h])])
    (List.nodup_cons.mpr ⟨ha, H.nodup⟩)
    (fun e he => by
      rcases List.mem_cons.mp he with rfl | he
      · exact hbrk
      · exact H.below e he)
    (congrArg (· + 1) H.used)
  refine ⟨_, _, ?_, H', hsize, rfl, fun b hba hb => hframe b hba fun hb' => hb (H.addr_mem hh hb')⟩
  rw [htableLink, hnode]
  show (deref t.data[htableHash node.item.key t.size]? >>= _) = _
  rw [hdata]
  show (deref (t.infos.pushFront a head) >>= _) = _
  rw [hpush]
  rfl

/-- The entries in another order that keeps the order for every key. -/
theorem reorder (H : Chains t chains es) {es' : List (Nat × HtableInfo V)} (hperm : es.Perm es')
    (horder : ∀ key, (es.filter (hasKey key)) = es'.filter (hasKey key)) :
    Chains t chains es' where
  size_pos := H.size_pos
  seg := H.seg
  hash := H.hash
  perm := H.perm.trans hperm
  order := fun key => (H.order key).trans (horder key)
  nodup := (hperm.map Prod.fst).nodup_iff.mp H.nodup
  below := fun e he => H.below e (hperm.mem_iff.mpr he)
  used := H.used.trans hperm.length_eq

/-- The chains one after the other keep the order for every key. -/
theorem filter_joined (H : Chains t chains es) (key : Key) :
    (((List.range t.size).flatMap chains).filter (hasKey key))
      = es.filter (hasKey key) := by
  rw [List.filter_flatMap, flatMap_range_single (htableHash_lt H.size_pos key), H.order]
  intro h hh hne
  refine List.filter_eq_nil_iff.mpr fun e he hkey => hne ?_
  rw [← H.hash h hh e he, hasKey_eq_true.mp hkey]

end Chains

-- ============================================================================
-- Growth
-- ============================================================================

section Growth

variable {t : Htable V} {chains : Nat → List (Nat × HtableInfo V)}
  {es xs : List (Nat × HtableInfo V)}

theorem chains_htableSize (t : Htable V) (size : Nat) :
    Chains (htableSize t size) (fun _ => []) [] ∧ (htableSize t size).size = size ||| 1 := by
  have hsize : (htableSize t size).size = size ||| 1 := List.length_replicate
  refine ⟨?_, hsize⟩
  constructor
  case size_pos =>
    rw [hsize]
    exact Nat.lt_of_lt_of_le Nat.one_pos Nat.right_le_or
  case seg =>
    intro h hh
    rw [hsize] at hh
    exact ⟨none, List.getElem?_replicate_of_lt hh, rfl⟩
  case hash => exact fun _ _ e he => by cases he
  case perm => rw [List.flatMap_eq_nil_iff.mpr fun _ _ => rfl]
  case order => exact fun _ => rfl
  case nodup => exact List.nodup_nil
  case below => exact fun e he => by cases he
  case used => rfl

/-- The entries of an old chain go over one by one. -/
theorem growChain_ok (H : Chains t chains es) {prev head : Option Nat}
    (hseg : Seg t.infos prev head xs none) (hnodup : ((xs ++ es).map Prod.fst).Nodup)
    (hbrk : ∀ e ∈ xs, e.1 < t.brk) {fuel : Nat} (hfuel : xs.length ≤ fuel) :
    ∃ t' chains', growChain fuel head t = .ok t' ∧ Chains t' chains' (xs.reverse ++ es) ∧
      t'.size = t.size ∧ t'.brk = t.brk ∧
      ∀ b, b ∉ (xs ++ es).map Prod.fst → t'.infos b = t.infos b := by
  induction xs generalizing t chains es prev head fuel with
  | nil =>
      obtain rfl := hseg
      exact ⟨t, chains, by cases fuel <;> rfl, H, rfl, rfl, fun _ _ => rfl⟩
  | cons e xs ih =>
      obtain ⟨rfl, next, hnode, hrest⟩ := hseg
      rw [List.cons_append, List.map_cons] at hnodup
      obtain ⟨hfresh, hnodup'⟩ := List.nodup_cons.mp hnodup
      rw [List.map_append, List.mem_append, not_or] at hfresh
      cases fuel with
      | zero => cases hfuel
      | succ fuel =>
          obtain ⟨t₁, chains₁, hlink, H₁, hsize₁, hbrk₁, hframe₁⟩ :=
            H.link hnode hfresh.2 (hbrk e (List.mem_cons_self ..))
          have hapart : ∀ b ∈ xs.map Prod.fst, b ≠ e.1 ∧ b ∉ es.map Prod.fst := by
            rw [List.map_append] at hnodup'
            exact fun b hb => ⟨fun hbe => hfresh.1 (hbe ▸ hb),
              fun hb' => (List.nodup_append.mp hnodup').2.2 b hb b hb' rfl⟩
          have hrest₁ := hrest.congr fun b hb => hframe₁ b (hapart b hb).1 (hapart b hb).2
          obtain ⟨t', chains', hgrow, H', hsize', hbrk', hframe'⟩ :=
            ih H₁ hrest₁ ((List.perm_middle.map Prod.fst).nodup_iff.mpr hnodup)
              (fun f hf => hbrk₁ ▸ hbrk f (List.mem_cons_of_mem _ hf))
              (Nat.le_of_succ_le_succ hfuel)
          refine ⟨t', chains', ?_, ?_, hsize'.trans hsize₁, hbrk'.trans hbrk₁, ?_⟩
          · rw [growChain, hnode]
            show (htableLink t e.1 >>= _) = _
            rw [hlink]
            exact hgrow
          · rw [List.reverse_cons, List.append_assoc]
            exact H'
          · intro b hb
            rw [List.cons_append, List.map_cons, List.mem_cons, not_or, List.map_append,
              List.mem_append, not_or] at hb
            rw [hframe' b, hframe₁ b hb.1 hb.2.2]
            rw [List.map_append, List.mem_append, not_or, List.map_cons, List.mem_cons, not_or]
            exact ⟨hb.2.1, hb.1, hb.2.2⟩

/-- All old chains, from the front. -/
theorem growChains_ok {xss : List (List (Nat × HtableInfo V))} {fuel : Nat}
    (hsegs : ∀ xs ∈ xss, Seg t.infos none (firstOf xs) xs none)
    (H : Chains t chains es) (hnodup : ((xss.flatten ++ es).map Prod.fst).Nodup)
    (hbrk : ∀ e ∈ xss.flatten, e.1 < t.brk) (hfuel : ∀ xs ∈ xss, xs.length ≤ fuel) :
    ∃ t' chains', growChains fuel (xss.map firstOf) t = .ok t' ∧
      Chains t' chains' (xss.flatten.reverse ++ es) ∧ t'.size = t.size ∧ t'.brk = t.brk ∧
      ∀ b, b ∉ (xss.flatten ++ es).map Prod.fst → t'.infos b = t.infos b := by
  induction xss generalizing t chains es with
  | nil => exact ⟨t, chains, rfl, H, rfl, rfl, fun _ _ => rfl⟩
  | cons xs xss ih =>
      rw [List.flatten_cons] at hnodup hbrk ⊢
      have hperm : ((xs ++ xss.flatten) ++ es).Perm (xss.flatten ++ (xs.reverse ++ es)) := by
        rw [← List.append_assoc]
        exact (List.perm_append_comm.trans
          ((List.reverse_perm xs).symm.append_left _)).append_right es
      have hnodup' := (hperm.map Prod.fst).nodup_iff.mp hnodup
      rw [List.append_assoc, List.map_append] at hnodup
      obtain ⟨hxs, hrest, hapart⟩ := List.nodup_append.mp hnodup
      rw [List.map_append] at hrest hapart
      obtain ⟨hxss, hes, hapart'⟩ := List.nodup_append.mp hrest
      obtain ⟨t₁, chains₁, hgrow₁, H₁, hsize₁, hbrk₁, hframe₁⟩ :=
        growChain_ok H (hsegs xs (List.mem_cons_self ..)) (by
            rw [List.map_append]
            exact List.nodup_append.mpr ⟨hxs, hes, fun b hb c hc =>
              hapart b hb c (List.mem_append_right _ hc)⟩)
          (fun e he => hbrk e (List.mem_append_left _ he)) (hfuel xs (List.mem_cons_self ..))
      have hkept : ∀ b ∈ xss.flatten.map Prod.fst, t₁.infos b = t.infos b := by
        intro b hb
        refine hframe₁ b fun hb' => ?_
        rw [List.map_append, List.mem_append] at hb'
        rcases hb' with hb' | hb'
        · exact hapart b hb' b (List.mem_append_left _ hb) rfl
        · exact hapart' b hb b hb' rfl
      have hsegs₁ : ∀ ys ∈ xss, Seg t₁.infos none (firstOf ys) ys none := by
        refine fun ys hys => (hsegs ys (List.mem_cons_of_mem _ hys)).congr fun b hb => hkept b ?_
        obtain ⟨e, he, rfl⟩ := List.mem_map.mp hb
        exact List.mem_map_of_mem (List.mem_flatten_of_mem hys he)
      obtain ⟨t', chains', hgrow', H', hsize', hbrk', hframe'⟩ := ih hsegs₁ H₁ hnodup'
        (fun e he => hbrk₁ ▸ hbrk e (List.mem_append_right _ he))
        (fun ys hys => hfuel ys (List.mem_cons_of_mem _ hys))
      refine ⟨t', chains', ?_, ?_, hsize'.trans hsize₁, hbrk'.trans hbrk₁, fun b hb => ?_⟩
      · rw [List.map_cons, growChains, hgrow₁]
        exact hgrow'
      · rw [List.reverse_append, List.append_assoc]
        exact H'
      · rw [hframe' b fun hb' => hb ((hperm.map Prod.fst).mem_iff.mpr hb'),
          hframe₁ b fun hb' => hb ?_]
        rw [List.map_append, List.mem_append] at hb' ⊢
        exact hb'.imp_left fun h => by
          rw [List.map_append]
          exact List.mem_append_left _ h

/-- A growth turns the order of the entries around. -/
theorem Chains.grow (H : Chains t chains es) :
    ∃ t' chains', htableGrow t = .ok t' ∧ Chains t' chains' es.reverse ∧
      t'.size = 2 * t.size ||| 1 ∧ t'.brk = t.brk ∧
      ∀ b, b ∉ es.map Prod.fst → t'.infos b = t.infos b := by
  obtain ⟨H₀, hsize₀⟩ := chains_htableSize t (2 * t.size)
  have hjoined : ((List.range t.size).map chains).flatten.Perm es := H.perm
  obtain ⟨t', chains', hgrow, H', hsize', hbrk', hframe⟩ :=
    @growChains_ok _ (htableSize t (2 * t.size)) _ _ _ t.used H.segs H₀
      (by
        rw [List.append_nil]
        exact (hjoined.map Prod.fst).nodup_iff.mpr H.nodup)
      (fun e he => H.below e (hjoined.subset he))
      (fun xs hxs => by
        obtain ⟨h, hh, rfl⟩ := List.mem_map.mp hxs
        exact H.length_le (List.mem_range.mp hh))
  rw [List.append_nil] at H' hframe
  refine ⟨t', chains', ?_, H'.reorder ?_ fun key => ?_, hsize'.trans hsize₀, hbrk', fun b hb => ?_⟩
  · rw [htableGrow, H.data_eq]
    exact hgrow
  · exact (List.reverse_perm _).trans (hjoined.trans (List.reverse_perm es).symm)
  · rw [List.filter_reverse, List.filter_reverse, ← H.filter_joined key]
    rfl
  · exact hframe b fun hb' => hb ((hjoined.map Prod.fst).subset hb')

end Growth

-- ============================================================================
-- The calls
-- ============================================================================

/-- The table holds the entries `es`; a lookup comes to the first entry of its key. -/
def Htable.Holds (t : Htable V) (es : List (Nat × HtableInfo V)) : Prop :=
  ∃ chains, Chains t chains es

namespace Htable.Holds

variable {t : Htable V} {es : List (Nat × HtableInfo V)}

theorem create (size : Int) :
    (htableCreate size : Htable V).Holds [] ∧
      (htableCreate size : Htable V).size = (if size < 13 then 13 else size.toNat) ||| 1 :=
  ⟨⟨_, (chains_htableSize _ _).1⟩, (chains_htableSize _ _).2⟩

theorem locate (h : t.Holds es) (key : Key) :
    htableLocate t key = .ok ((es.find? (hasKey key)).map Prod.fst) :=
  h.elim fun _ H => H.locate key

theorem info (h : t.Holds es) {e : Nat × HtableInfo V} (he : e ∈ es) :
    ∃ next prev, t.infos e.1 = some { item := e.2, next, prev } := by
  obtain ⟨chains, H⟩ := h
  obtain ⟨i, hi, hmem⟩ := List.mem_flatMap.mp (H.perm.symm.subset he)
  obtain ⟨_, -, hseg⟩ := H.seg i (List.mem_range.mp hi)
  exact hseg.node hmem

theorem find (h : t.Holds es) (key : Key) :
    htableFind t key = .ok ((es.find? (hasKey key)).map fun e => e.2.value) := by
  rw [htableFind, h.locate]
  show (match (es.find? (hasKey key)).map Prod.fst with
    | none => _
    | some ht => deref (t.infos ht) >>= _) = _
  cases hfind : es.find? (hasKey key) with
  | none => rfl
  | some e =>
      obtain ⟨next, prev, hnode⟩ := h.info (List.mem_of_find?_eq_some hfind)
      simp only [Option.map_some, hnode]
      rfl

/-- The new entry is before the others; they were turned around if the table has grown. -/
theorem enter (h : t.Holds es) (key : Key) (value : V) :
    ∃ t', htableEnter t key value = .ok (t.brk, t') ∧
      t'.Holds ((t.brk, { key, value }) :: if t.size ≤ es.length then es.reverse else es) ∧
      t'.size = if t.size ≤ es.length then 2 * t.size ||| 1 else t.size := by
  obtain ⟨chains, H⟩ := h
  obtain ⟨t₁, chains₁, hgrow, H₁, hsize₁, hbrk₁⟩ : ∃ t₁ chains₁,
      growIfFull t = .ok t₁ ∧
        Chains t₁ chains₁ (if t.size ≤ es.length then es.reverse else es) ∧
        t₁.size = (if t.size ≤ es.length then 2 * t.size ||| 1 else t.size) ∧ t₁.brk = t.brk := by
    rw [growIfFull, H.used]
    by_cases hfull : t.size ≤ es.length
    · obtain ⟨t₁, chains₁, hgrow, H₁, hsize₁, hbrk₁, -⟩ := H.grow
      exact ⟨t₁, chains₁, by rw [if_pos hfull, hgrow], by rwa [if_pos hfull],
        by rw [if_pos hfull, hsize₁], hbrk₁⟩
    · exact ⟨t, chains, by rw [if_neg hfull], by rwa [if_neg hfull], by rw [if_neg hfull], rfl⟩
  have hfresh : t₁.brk ∉ (if t.size ≤ es.length then es.reverse else es).map Prod.fst := by
    intro hmem
    obtain ⟨e, he, heq⟩ := List.mem_map.mp hmem
    exact absurd heq (Nat.ne_of_lt (H₁.below e he))
  -- the entry that `mymalloc` returns stands in no chain
  have H₂ : Chains { t₁ with
      infos := Function.update t₁.infos t₁.brk
        (some { item := { key, value }, next := none, prev := none })
      brk := t₁.brk + 1 } chains₁ (if t.size ≤ es.length then es.reverse else es) := by
    refine { H₁ with seg := fun i hi => ?_, below := fun e he => Nat.lt_succ_of_lt (H₁.below e he) }
    obtain ⟨head, hdata, hseg⟩ := H₁.seg i hi
    refine ⟨head, hdata, hseg.update (fun hb => hfresh ?_) _⟩
    obtain ⟨e, he, heq⟩ := List.mem_map.mp hb
    exact heq ▸ List.mem_map_of_mem (H₁.mem hi he)
  obtain ⟨t', chains', hlink, H', hsize', -, -⟩ :=
    H₂.link (Function.update_self ..) hfresh (Nat.lt_succ_self _)
  refine ⟨t', ?_, ⟨chains', hbrk₁ ▸ H'⟩, hsize'.trans hsize₁⟩
  rw [htableEnter, bind_of_ok hgrow, bind_of_ok hlink, hbrk₁]

/-- A key that is not there. -/
theorem delete_none (h : t.Holds es) {key : Key} (hkey : (es.find? (hasKey key)) = none) :
    htableDelete t key = .error .panic := by
  obtain ⟨chains, H⟩ := h
  obtain ⟨head, hdata, -⟩ := H.seg _ (htableHash_lt H.size_pos key)
  rw [htableDelete, hdata]
  show (htableLocate t key >>= _) = _
  rw [H.locate, hkey]
  rfl

/-- The first entry of the key goes. -/
theorem delete (h : t.Holds es) {key : Key} {e : Nat × HtableInfo V}
    (hfind : es.find? (hasKey key) = some e) :
    ∃ t', htableDelete t key = .ok (t', e.2.value) ∧
      t'.Holds (es.eraseP (hasKey key)) ∧ t'.size = t.size := by
  obtain ⟨chains, H⟩ := h
  have hh := htableHash_lt H.size_pos key
  obtain ⟨head, hdata, hseg⟩ := H.seg _ hh
  have hchain : (chains (htableHash key t.size)).find? (hasKey key) = some e := by
    rw [← List.head?_filter, H.order, List.head?_filter, hfind]
  obtain ⟨next, prev, hnode⟩ := Htable.Holds.info ⟨chains, H⟩ (List.mem_of_find?_eq_some hfind)
  have hlocate := H.locate key
  rw [hfind] at hlocate
  -- the entry in its chain, and among all entries
  obtain ⟨hpe, xs, ys, hsplit, hxs⟩ := List.find?_eq_some_iff_append.mp hchain
  obtain ⟨-, fs, gs, rfl, hfs⟩ := List.find?_eq_some_iff_append.mp hfind
  have hkey := hasKey_eq_true.mp hpe
  have herase : (fs ++ e :: gs).eraseP (hasKey key) = fs ++ gs := by
    rw [List.eraseP_append_right _ fun b hb => by simpa using hfs b hb, List.eraseP_cons_of_pos hpe]
  have hnodup := H.chain_nodup hh
  rw [hsplit] at hseg hnodup
  obtain ⟨head', infos, hunlink, hseg', hframe⟩ := hseg.unlink hnodup
  have hin : ∀ {zs zs' : List (Nat × HtableInfo V)}, (zs ++ zs').Sublist (zs ++ e :: zs') :=
    (List.Sublist.refl _).append (List.sublist_cons_self e _)
  obtain ⟨hgone, hnodup'⟩ :=
    List.nodup_cons.mp ((List.perm_middle.map Prod.fst).nodup_iff.mp H.nodup)
  have hgone' := (List.nodup_cons.mp ((List.perm_middle.map Prod.fst).nodup_iff.mp hnodup)).1
  have hperm : ((List.range t.size).flatMap
      (Function.update chains (htableHash key t.size) (xs ++ ys))).Perm (fs ++ gs) := by
    have hone := flatMap_range_perm hh
      (fun i hi => (@Function.update_of_ne _ _ _ i _ hi (xs ++ ys) chains).symm)
      (show (chains (htableHash key t.size)).Perm (e :: _) by
        rw [hsplit, Function.update_self]
        exact List.perm_middle)
    exact List.Perm.cons_inv (hone.symm.trans (H.perm.trans List.perm_middle))
  have hnone : ∀ zs : List (Nat × HtableInfo V), (∀ b ∈ zs, (!hasKey key b) = true) →
      zs.filter (hasKey key) = [] :=
    fun zs hzs => List.filter_eq_nil_iff.mpr fun b hb => by simpa using hzs b hb
  have hother : ∀ {key' : Key}, key ≠ key' → ∀ zs zs' : List (Nat × HtableInfo V),
      (zs ++ zs').filter (hasKey key') = (zs ++ e :: zs').filter (hasKey key') := by
    intro key' hne zs zs'
    rw [List.filter_append, List.filter_append,
      List.filter_cons_of_neg fun h => hne (hkey.symm.trans (hasKey_eq_true.mp h))]
  obtain ⟨H', hsize⟩ := H.replace hh (hseg'.update (fun hb => hgone' hb) none)
    (fun f hf => H.hash _ hh f (hsplit ▸ hin.subset hf))
    (fun i hi hne b hb => by
      have hapart := H.disjoint hh hi hne hb
      rw [hsplit] at hapart
      rw [Function.update_of_ne fun hbe : b = e.1 => hapart (hbe ▸ List.mem_map_of_mem
        (List.mem_append_right _ (List.mem_cons_self ..)))]
      exact hframe b fun hb' => hapart ((hin.map Prod.fst).subset hb'))
    hperm
    (fun key' hkey' => by
      by_cases hne : key = key'
      · subst hne
        have horder := H.order key
        rw [hsplit, List.filter_append, List.filter_append, hnone xs hxs, hnone fs hfs,
          List.filter_cons_of_pos hpe, List.filter_cons_of_pos hpe] at horder
        rw [List.filter_append, List.filter_append, hnone xs hxs, hnone fs hfs]
        exact (List.cons.inj horder).2
      · rw [hother hne xs ys, ← hsplit, ← hkey', H.order, hother hne fs gs])
    (fun key' hkey' => (hother (fun hne => hkey' (hne ▸ rfl)) fs gs).symm) hnodup'
    (fun f hf => H.below f (hin.subset hf))
    (show t.used - 1 = (fs ++ gs).length by
      rw [H.used, List.length_append, List.length_append, List.length_cons]
      omega)
  rw [herase]
  refine ⟨_, ?_, ⟨_, H'⟩, hsize⟩
  rw [htableDelete, hdata]
  show (htableLocate t key >>= _) = _
  rw [hlocate]
  show (deref (t.infos e.1) >>= _) = _
  rw [hnode]
  show (deref (t.infos.unlink e.1 head) >>= _) = _
  rw [hunlink]
  rfl

/-- A walk through all chains comes to every entry once. -/
theorem walkChains (h : t.Holds es) :
    ∃ members, walkChains t.infos t.used t.data = .ok members ∧ members.Perm es := by
  obtain ⟨chains, H⟩ := h
  have hwalk : ∀ xss : List (List (Nat × HtableInfo V)),
      (∀ xs ∈ xss, Seg t.infos none (firstOf xs) xs none ∧ xs.length ≤ t.used) →
        Util.walkChains t.infos t.used (xss.map firstOf) = .ok xss.flatten := by
    intro xss hxss
    induction xss with
    | nil => rfl
    | cons xs xss ih =>
        obtain ⟨hseg, hlen⟩ := hxss xs (List.mem_cons_self ..)
        rw [List.map_cons, Util.walkChains, hseg.walk_eq hlen]
        show (Util.walkChains _ _ _ >>= _) = _
        rw [ih fun ys hys => hxss ys (List.mem_cons_of_mem _ hys)]
        rfl
  refine ⟨_, ?_, H.perm⟩
  rw [H.data_eq]
  refine hwalk _ fun xs hxs => ⟨H.segs xs hxs, ?_⟩
  obtain ⟨i, hi, rfl⟩ := List.mem_map.mp hxs
  exact H.length_le (List.mem_range.mp hi)

end Htable.Holds

/-- The table holds the entries of the list. -/
def Htable.Represents (t : Htable V) (a : Entries V) : Prop :=
  ∃ es, t.Holds es ∧ es.map Prod.snd = a.entries ∧ t.size = a.size

namespace Htable.Represents

variable {t : Htable V} {a : Entries V}

theorem step (h : t.Represents a) (op : HtableOp V) :
    Agree Htable.Represents (htableStep t op) (a.step op) := by
  obtain ⟨es, hes, hentries, hsize⟩ := h
  have hlength : es.length = a.entries.length := by rw [← hentries, List.length_map]
  have hfind : ∀ key, a.entries.find? (fun info => info.key = key)
      = (es.find? (hasKey key)).map Prod.snd := fun key => by
    rw [← hentries, List.find?_map]
    rfl
  cases op with
  | enter key value =>
      obtain ⟨t', henter, hes', hsize'⟩ := hes.enter key value
      rw [htableStep, bind_of_ok henter, Entries.step]
      rw [hlength, hsize] at hes' hsize'
      by_cases hfull : a.size ≤ a.entries.length
      · rw [if_pos hfull] at hes' hsize' ⊢
        refine ⟨⟨_, hes', ?_, hsize'⟩, rfl⟩
        rw [List.map_cons, List.map_reverse, hentries]
      · rw [if_neg hfull] at hes' hsize' ⊢
        refine ⟨⟨_, hes', ?_, hsize'⟩, rfl⟩
        rw [List.map_cons, hentries]
  | find key =>
      rw [htableStep, hes.find, Entries.step, hfind, Option.map_map]
      exact ⟨⟨es, hes, hentries, hsize⟩, rfl⟩
  | delete key =>
      rw [Entries.step, hfind]
      cases hkey : es.find? (hasKey key) with
      | none =>
          rw [htableStep, hes.delete_none hkey]
          exact rfl
      | some e =>
          obtain ⟨t', hdelete, hes', hsize'⟩ := hes.delete hkey
          rw [htableStep, bind_of_ok hdelete]
          refine ⟨⟨_, hes', ?_, hsize'.trans hsize⟩, rfl⟩
          rw [← hentries, List.eraseP_map]
          rfl

end Htable.Represents

/-- Any calls.  The table answers as the list of the entries does, and panics where that has nothing
    to delete; then `used` counts the entries, `htable_list` has as many different members, and
    `htable_walk` comes to every entry once. -/
theorem htable_refines (size : Int) (ops : List (HtableOp V)) :
    Agree (fun t a => t.used = a.entries.length ∧
        (∃ list, htableList t = .ok list ∧ list.Nodup ∧ list.length = t.used) ∧
        ∃ infos, htableWalk t = .ok infos ∧ infos.Perm a.entries)
      (runOps htableStep (htableCreate size) ops) (runOps Entries.step (.start size) ops) := by
  have hcreate : (htableCreate size : Htable V).Represents (.start size) :=
    ⟨[], (Htable.Holds.create size).1, rfl, (Htable.Holds.create size).2⟩
  refine (runOps_agree (fun _ _ op h => h.step op) hcreate ops).mono fun t a h => ?_
  obtain ⟨es, hes, hentries, -⟩ := h
  obtain ⟨members, hwalk, hperm⟩ := hes.walkChains
  obtain ⟨chains, H⟩ := hes
  refine ⟨?_, ⟨_, by rw [htableList, bind_of_ok hwalk], ?_, ?_⟩,
    _, by rw [htableWalk, bind_of_ok hwalk], ?_⟩
  · rw [H.used, ← hentries, List.length_map]
  · exact (hperm.map Prod.fst).nodup_iff.mpr H.nodup
  · rw [List.length_map, hperm.length_eq, H.used]
  · rw [← hentries]
    exact hperm.map Prod.snd

-- ============================================================================
-- Tables without repeated keys
-- ============================================================================

/-- The table maps every key of `pairs` to its value; no key stands there twice. -/
def Htable.Maps (t : Htable V) (pairs : List (Key × V)) : Prop :=
  ∃ es, t.Holds es ∧ (es.map fun e => (e.2.key, e.2.value)).Perm pairs ∧
    (pairs.map Prod.fst).Nodup

/-- Where no key stands twice, a lookup does not depend on the order. -/
theorem find?_of_perm {pairs pairs' : List (Key × V)} (hperm : pairs.Perm pairs')
    (hnodup : (pairs'.map Prod.fst).Nodup) (key : Key) :
    pairs.find? (fun p => p.1 = key) = pairs'.find? fun p => p.1 = key := by
  cases hfind : pairs.find? fun p => p.1 = key with
  | none =>
      refine (List.find?_eq_none.mpr fun p hp => ?_).symm
      exact List.find?_eq_none.mp hfind p (hperm.mem_iff.mpr hp)
  | some p =>
      have hp := hperm.mem_iff.mp (List.mem_of_find?_eq_some hfind)
      have hkey : p.1 = key := by simpa using List.find?_some hfind
      cases hfind' : pairs'.find? fun p => p.1 = key with
      | none => exact absurd (decide_eq_true hkey) (List.find?_eq_none.mp hfind' p hp)
      | some q =>
          have hkey' : q.1 = key := by simpa using List.find?_some hfind'
          rw [List.inj_on_of_nodup_map hnodup hp (List.mem_of_find?_eq_some hfind')
            (hkey.trans hkey'.symm)]

namespace Htable.Maps

variable {t : Htable V} {pairs : List (Key × V)}

theorem create (size : Int) : (htableCreate size : Htable V).Maps [] :=
  ⟨[], (Htable.Holds.create size).1, .nil, List.nodup_nil⟩

theorem perm (h : t.Maps pairs) {pairs' : List (Key × V)} (hperm : pairs.Perm pairs') :
    t.Maps pairs' := by
  obtain ⟨es, hes, hpairs, hnodup⟩ := h
  exact ⟨es, hes, hpairs.trans hperm, (hperm.map Prod.fst).nodup_iff.mp hnodup⟩

theorem find (h : t.Maps pairs) (key : Key) :
    htableFind t key = .ok ((pairs.find? fun p => p.1 = key).map Prod.snd) := by
  obtain ⟨es, hes, hpairs, hnodup⟩ := h
  rw [hes.find, ← find?_of_perm hpairs hnodup, List.find?_map, Option.map_map]
  rfl

theorem enter (h : t.Maps pairs) {key : Key} (hkey : key ∉ pairs.map Prod.fst) (value : V) :
    ∃ ht t' info, htableEnter t key value = .ok (ht, t') ∧ t'.Maps ((key, value) :: pairs) ∧
      t'.infos ht = some info ∧ info.item.key = key := by
  obtain ⟨es, hes, hpairs, hnodup⟩ := h
  obtain ⟨t', henter, hes', -⟩ := hes.enter key value
  obtain ⟨next, prev, hinfo⟩ := hes'.info (List.mem_cons_self ..)
  refine ⟨_, t', _, henter, ⟨_, hes', ?_, List.nodup_cons.mpr ⟨hkey, hnodup⟩⟩, hinfo, rfl⟩
  rw [List.map_cons]
  refine List.Perm.cons _ (List.Perm.trans (List.Perm.map _ ?_) hpairs)
  split
  · exact List.reverse_perm es
  · exact .refl es

theorem delete {rest : List (Key × V)} {key : Key} {value : V}
    (h : t.Maps ((key, value) :: rest)) :
    ∃ t', htableDelete t key = .ok (t', value) ∧ t'.Maps rest := by
  obtain ⟨es, hes, hpairs, hnodup⟩ := h
  have hfound := find?_of_perm hpairs hnodup key
  rw [List.find?_map, List.find?_cons_of_pos (by simp)] at hfound
  obtain ⟨e, hfirst, he⟩ := Option.map_eq_some_iff.mp hfound
  have hfind : es.find? (hasKey key) = some e := hfirst
  obtain ⟨t', hdelete, hes', -⟩ := hes.delete hfind
  obtain ⟨hkey, rfl⟩ := Prod.mk.inj he
  refine ⟨t', hdelete, _, hes', ?_, (List.nodup_cons.mp hnodup).2⟩
  obtain ⟨-, fs, gs, rfl, hfs⟩ := List.find?_eq_some_iff_append.mp hfind
  rw [List.eraseP_append_right _ fun b hb => by simpa using hfs b hb,
    List.eraseP_cons_of_pos (List.find?_some hfind)]
  have hmiddle := (List.perm_middle.map fun e : Nat × HtableInfo V => (e.2.key, e.2.value)).symm.trans
    hpairs
  rw [List.map_cons, hkey] at hmiddle
  exact hmiddle.cons_inv

theorem free (h : t.Maps pairs) :
    ∃ values, htableFree t = .ok values ∧ values.Perm (pairs.map Prod.snd) := by
  obtain ⟨es, hes, hpairs, -⟩ := h
  obtain ⟨members, hwalk, hperm⟩ := hes.walkChains
  refine ⟨_, by rw [htableFree, bind_of_ok hwalk], ?_⟩
  refine (hperm.map _).trans ?_
  have hvalues := hpairs.map Prod.snd
  rwa [List.map_map] at hvalues

end Htable.Maps

end LinuxCodeDemos.Util

/-
  LinuxCodeDemos.Util.Ctable

  The cache of `ctable.c`: a hash table from keys to entries, and a ring of the entries with the one
  used last behind the head.

  - A key that is not in the cache gets its value from `create`; when the cache is full, the entry
    before the head makes room, and `delete` gets its value.
  - The caller's `create` and `delete` do not change the cache.  What `create` returns is an input,
    and the calls of both are recorded in their order.
  - A limit below five is taken as five.
-/

import LinuxCodeDemos.Lib.Circle
import LinuxCodeDemos.Util.Htable

namespace LinuxCodeDemos.Util

open Lib

-- ============================================================================
-- Definitions
-- ============================================================================

/-- `CTABLE_ENTRY` without its links. -/
structure CtableEntry (V : Type) where
  key : Key
  value : V
  deriving DecidableEq, Repr

/-- A pointer to a `RING`: that of the cache, or that of an entry. -/
inductive RingPtr where
  | cache
  | entry (a : Nat)
  deriving DecidableEq, Repr

/-- `CTABLE`, and the entries that are allocated. -/
structure Ctable (V C : Type) where
  table : Htable Nat
  limit : Nat
  used : Nat
  rings : Links RingPtr
  entries : Nat → Option (CtableEntry V)
  brk : Nat
  context : C

/-- A store into an entry. -/
def Ctable.setEntry {V C : Type} (cache : Ctable V C) (a : Nat) (entry : CtableEntry V) :
    Ctable V C :=
  { cache with entries := Function.update cache.entries a (some entry) }

/-- A call of the application, with what `create` returned. -/
inductive Callback (V C : Type) where
  | create (key : Key) (context : C) (value : V)
  | delete (value : V) (context : C)
  deriving DecidableEq, Repr

variable {V C : Type}

/-- `CTABLE_MIN_SIZE`. -/
def ctableMinSize : Nat := 5

/-- `ctable_create`. -/
def ctableCreate (limit : Int) (context : C) : Except Stop (Ctable V C) :=
  if limit < 1 then .error .panic
  else .ok
    { table := htableCreate limit
      limit := if limit < ctableMinSize then ctableMinSize else limit.toNat
      used := 0
      rings := Links.init { succ := fun _ => none, pred := fun _ => none } .cache
      entries := fun _ => none
      brk := 0
      context }

/-- `RING_TO_CTABLE_ENTRY`; there is no entry around the ring of the cache. -/
def ringToCtableEntry : RingPtr → Except Stop Nat
  | .entry a => .ok a
  | .cache => .error .memory

/-- The entry that is purged, or a new one. -/
def takeEntry (cache : Ctable V C) : Except Stop (Nat × Ctable V C × List (Callback V C)) :=
  if cache.used ≥ cache.limit then do
    let last ← deref (cache.rings.pred .cache)
    let entry ← ringToCtableEntry last
    let rings ← deref (cache.rings.detach (.entry entry))
    let purged ← deref (cache.entries entry)
    let (table, _) ← htableDelete cache.table purged.key
    .ok (entry, { cache with rings, table }, [.delete purged.value cache.context])
  else .ok (cache.brk, { cache with used := cache.used + 1, brk := cache.brk + 1 }, [])

/-- The entry becomes the first behind the head. -/
def moveToFront (cache : Ctable V C) (entry : Nat) : Except Stop (Ctable V C) := do
  let first ← deref (cache.rings.succ .cache)
  if first = .entry entry then .ok cache
  else do
    let rings ← deref (cache.rings.detach (.entry entry))
    let rings ← deref (rings.append .cache (.entry entry))
    .ok { cache with rings }

/-- `ctable_locate`; `fresh` is what `create` returns. -/
def ctableLocate (cache : Ctable V C) (key : Key) (fresh : V) :
    Except Stop (Ctable V C × List (Callback V C) × V) := do
  match ← htableFind cache.table key with
  | none => do
      let (entry, cache, calls) ← takeEntry cache
      let (ht, table) ← htableEnter cache.table key entry
      let info ← deref (table.infos ht)
      let rings ← deref (cache.rings.append .cache (.entry entry))
      let installed : CtableEntry V := { key := info.item.key, value := fresh }
      .ok (Ctable.setEntry { cache with table, rings } entry installed,
        calls ++ [.create key cache.context fresh], fresh)
  | some entry => do
      let cache ← moveToFront cache entry
      let found ← deref (cache.entries entry)
      .ok (cache, [], found.value)

/-- `ctable_refresh`. -/
def ctableRefresh (cache : Ctable V C) (key : Key) (fresh : V) :
    Except Stop (Ctable V C × List (Callback V C) × V) := do
  match ← htableFind cache.table key with
  | none => ctableLocate cache key fresh
  | some entry => do
      let found ← deref (cache.entries entry)
      let calls := [.delete found.value cache.context, .create key cache.context fresh]
      let cache ← moveToFront (cache.setEntry entry { found with value := fresh }) entry
      .ok (cache, calls, fresh)

/-- `ctable_newcontext`. -/
def ctableNewcontext (cache : Ctable V C) (context : C) : Ctable V C := { cache with context }

/-- The entries that pointers lead to. -/
def readEntries (cache : Ctable V C) : List RingPtr → Except Stop (List (CtableEntry V))
  | [] => .ok []
  | p :: ps => do
      let a ← ringToCtableEntry p
      let entry ← deref (cache.entries a)
      let rest ← readEntries cache ps
      .ok (entry :: rest)

/-- `ctable_walk`: what `action` gets, in this order. -/
def ctableWalk (cache : Ctable V C) : Except Stop (List (CtableEntry V)) := do
  let around ← deref (cache.rings.walk .cache (cache.used + 1) .cache)
  readEntries cache around

/-- `ctable_free`: the calls of `delete`. -/
def ctableFree (cache : Ctable V C) : Except Stop (List (Callback V C)) := do
  let entries ← htableFree cache.table
  let freed ← readEntries cache (entries.map .entry)
  .ok (freed.map fun entry => .delete entry.value cache.context)

-- ============================================================================
-- The calls of a program, and what they come to
-- ============================================================================

inductive CtableOp (V C : Type) where
  | locate (key : Key) (fresh : V)
  | refresh (key : Key) (fresh : V)
  | newcontext (context : C)
  deriving DecidableEq, Repr

/-- A call with what it returns and the calls of the application it makes. -/
def ctableStep (cache : Ctable V C) :
    CtableOp V C → Except Stop (Ctable V C × List (Callback V C) × Option V)
  | .locate key fresh => do
      let (cache, calls, value) ← ctableLocate cache key fresh
      .ok (cache, calls, some value)
  | .refresh key fresh => do
      let (cache, calls, value) ← ctableRefresh cache key fresh
      .ok (cache, calls, some value)
  | .newcontext context => .ok (ctableNewcontext cache context, [], none)

/-- A cache as a list, with the entry used last at the front. -/
structure Lru (V C : Type) where
  items : List (CtableEntry V)
  limit : Nat
  context : C

namespace Lru

def start (limit : Int) (context : C) : Lru V C :=
  { items := [], limit := max ctableMinSize limit.toNat, context }

/-- The list without its last entry, if it is full, and the value of that entry. -/
def purge (a : Lru V C) : List (CtableEntry V) × List (Callback V C) :=
  if a.limit ≤ a.items.length then
    (a.items.dropLast, a.items.getLast?.toList.map fun last => .delete last.value a.context)
  else (a.items, [])

def locate (a : Lru V C) (key : Key) (fresh : V) : Lru V C × List (Callback V C) × V :=
  match a.items.find? fun item => item.key = key with
  | some found =>
      ({ a with items := found :: a.items.eraseP fun item => item.key = key }, [], found.value)
  | none =>
      ({ a with items := { key, value := fresh } :: a.purge.1 },
        a.purge.2 ++ [.create key a.context fresh], fresh)

def refresh (a : Lru V C) (key : Key) (fresh : V) : Lru V C × List (Callback V C) × V :=
  match a.items.find? fun item => item.key = key with
  | some found =>
      ({ a with items := { key, value := fresh } :: a.items.eraseP fun item => item.key = key },
        [.delete found.value a.context, .create key a.context fresh], fresh)
  | none => a.locate key fresh

def step (a : Lru V C) : CtableOp V C → Lru V C × List (Callback V C) × Option V
  | .locate key fresh =>
      let (a, calls, value) := a.locate key fresh
      (a, calls, some value)
  | .refresh key fresh =>
      let (a, calls, value) := a.refresh key fresh
      (a, calls, some value)
  | .newcontext context => ({ a with context }, [], none)

end Lru

-- ============================================================================
-- The ring
-- ============================================================================

/-- The pointers to the entries of a list. -/
def ptrs (xs : List (Nat × CtableEntry V)) : List RingPtr := xs.map fun e => .entry e.1

theorem not_mem_ptrs {xs : List (Nat × CtableEntry V)} {a : Nat} (h : a ∉ xs.map Prod.fst) :
    RingPtr.entry a ∉ RingPtr.cache :: ptrs xs := by
  intro hmem
  rcases List.mem_cons.mp hmem with heq | hmem
  · cases heq
  · obtain ⟨e, he, heq⟩ := List.mem_map.mp hmem
    exact h ((RingPtr.entry.inj heq) ▸ List.mem_map_of_mem he)

/-- The cache holds the entries `xs`, the one used last first. -/
structure Caches (cache : Ctable V C) (xs : List (Nat × CtableEntry V)) : Prop where
  ring : Circle cache.rings .cache (ptrs xs)
  entries : ∀ e ∈ xs, cache.entries e.1 = some e.2
  table : cache.table.Maps (xs.map fun e => (e.2.key, e.1))
  used : cache.used = xs.length
  room : xs.length ≤ cache.limit
  limit_pos : 0 < cache.limit
  below : ∀ e ∈ xs, e.1 < cache.brk

namespace Caches

variable {cache : Ctable V C} {xs ys : List (Nat × CtableEntry V)} {e : Nat × CtableEntry V}

theorem addrs_nodup (h : Caches cache xs) : (xs.map Prod.fst).Nodup := by
  have hnodup := (List.nodup_cons.mp h.ring.nodup).2
  have hcomp : ptrs xs = (xs.map Prod.fst).map RingPtr.entry := (List.map_map ..).symm
  rw [hcomp] at hnodup
  exact List.Nodup.of_map _ hnodup

/-- A lookup in the table. -/
theorem find (h : Caches cache xs) (key : Key) :
    htableFind cache.table key = .ok ((xs.find? fun e => e.2.key = key).map Prod.fst) := by
  rw [h.table.find, List.find?_map, Option.map_map]
  rfl

/-- The entry of a hit goes to the front. -/
theorem moveToFront (h : Caches cache (xs ++ e :: ys)) :
    ∃ rings, moveToFront cache e.1 = .ok { cache with rings } ∧
      Circle rings .cache (ptrs (e :: (xs ++ ys))) := by
  have hring := h.ring
  have hnodup := hring.nodup
  rw [Util.moveToFront, hring.succ_head]
  cases xs with
  | nil => exact ⟨cache.rings, if_pos rfl, hring⟩
  | cons x xs =>
      have hne : RingPtr.entry x.1 ≠ .entry e.1 := by
        intro heq
        have hxs := (List.nodup_cons.mp (List.nodup_cons.mp hnodup).2).1
        refine hxs ?_
        show RingPtr.entry x.1 ∈ _
        rw [heq]
        exact List.mem_map_of_mem (List.mem_append_right _ (List.mem_cons_self ..))
      show ∃ rings, (if RingPtr.entry x.1 = .entry e.1 then _ else _) = _ ∧ _
      rw [if_neg hne]
      rw [ptrs, List.map_append, List.map_cons] at hring
      obtain ⟨r₁, hdetach, hring₁⟩ := hring.detach
      have hfresh : RingPtr.entry e.1 ∉
          RingPtr.cache :: (((x :: xs).map fun e => RingPtr.entry e.1) ++
            ys.map fun e => RingPtr.entry e.1) := by
        rw [ptrs, List.map_append, List.map_cons, ← List.cons_append] at hnodup
        rw [← List.cons_append]
        exact (List.nodup_cons.mp (List.perm_middle.nodup_iff.mp hnodup)).1
      obtain ⟨r₂, happend, hring₂⟩ := hring₁.append hfresh
      refine ⟨r₂, ?_, ?_⟩
      · rw [hdetach]
        show (deref (r₁.append .cache (.entry e.1)) >>= _) = _
        rw [happend]
        rfl
      · rw [ptrs, List.map_cons, List.map_append]
        exact hring₂

/-- What is left when an entry is purged or a new one is allocated. -/
theorem takeEntry (h : Caches cache xs) :
    ∃ entry rings table used brk,
      takeEntry cache = .ok (entry, { cache with rings, table, used, brk },
        if cache.limit ≤ xs.length then
          xs.getLast?.toList.map fun last => .delete last.2.value cache.context
        else []) ∧
      Circle rings .cache (ptrs (if cache.limit ≤ xs.length then xs.dropLast else xs)) ∧
      table.Maps ((if cache.limit ≤ xs.length then xs.dropLast else xs).map
        fun e => (e.2.key, e.1)) ∧
      used = (if cache.limit ≤ xs.length then xs.dropLast else xs).length + 1 ∧
      used ≤ cache.limit ∧ cache.brk ≤ brk ∧ entry < brk ∧
      entry ∉ (if cache.limit ≤ xs.length then xs.dropLast else xs).map Prod.fst := by
  have hroom := h.room
  have hpos := h.limit_pos
  rw [Util.takeEntry]
  by_cases hfull : cache.limit ≤ xs.length
  · have hne : xs ≠ [] := by
      rintro rfl
      exact absurd (Nat.lt_of_lt_of_le hpos hfull) (Nat.lt_irrefl 0)
    obtain ⟨zs, e, rfl⟩ : ∃ zs e, xs = zs ++ [e] :=
      ⟨_, _, (List.dropLast_append_getLast hne).symm⟩
    simp only [if_pos hfull, List.dropLast_concat, List.getLast?_concat, Option.toList_some,
      List.map_cons, List.map_nil]
    have hring := h.ring
    have hlast : cache.rings.pred .cache = some (.entry e.1) := by
      rw [hring.pred_head, ptrs, List.map_append, List.map_singleton, List.getLast?_concat]
      rfl
    rw [ptrs, List.map_append, List.map_singleton] at hring
    obtain ⟨rings, hdetach, hring'⟩ := hring.detach
    rw [List.append_nil] at hring'
    have htable := h.table
    rw [List.map_append, List.map_singleton] at htable
    obtain ⟨table, hdelete, htable'⟩ := (htable.perm List.perm_append_comm).delete
    have haddrs := h.addrs_nodup
    rw [List.map_append, List.map_singleton] at haddrs
    have hlen : (zs ++ [e]).length = zs.length + 1 := List.length_append
    refine ⟨e.1, rings, table, cache.used, cache.brk, ?_, hring', htable',
      h.used.trans hlen, h.used ▸ hroom, Nat.le_refl _,
      h.below e (List.mem_append_right _ (List.mem_cons_self ..)), fun hmem => ?_⟩
    · rw [if_pos (h.used ▸ hfull), hlast]
      show (deref (cache.rings.detach (.entry e.1)) >>= _) = _
      rw [hdetach]
      show (deref (cache.entries e.1) >>= _) = _
      rw [h.entries e (List.mem_append_right _ (List.mem_cons_self ..))]
      show (htableDelete cache.table e.2.key >>= _) = _
      rw [hdelete]
      rfl
    · exact (List.nodup_append.mp haddrs).2.2 e.1 hmem e.1 (List.mem_cons_self ..) rfl
  · simp only [if_neg hfull]
    refine ⟨cache.brk, cache.rings, cache.table, cache.used + 1, cache.brk + 1, ?_, h.ring, h.table,
      congrArg (· + 1) h.used, ?_, Nat.le_succ _, Nat.lt_succ_self _, fun hmem => ?_⟩
    · rw [if_neg (h.used ▸ hfull)]
    · rw [h.used]
      omega
    · obtain ⟨e, he, heq⟩ := List.mem_map.mp hmem
      exact absurd heq (Nat.ne_of_lt (h.below e he))

/-- A key that is not in the cache. -/
theorem locate_miss (h : Caches cache xs) {key : Key}
    (hmiss : xs.find? (fun e => e.2.key = key) = none) (fresh : V) :
    ∃ entry cache', ctableLocate cache key fresh = .ok (cache',
        (if cache.limit ≤ xs.length then
          xs.getLast?.toList.map fun last => .delete last.2.value cache.context
        else []) ++ [.create key cache.context fresh], fresh) ∧
      Caches cache' ((entry, { key, value := fresh }) ::
        if cache.limit ≤ xs.length then xs.dropLast else xs) ∧
      cache'.limit = cache.limit ∧ cache'.context = cache.context := by
  obtain ⟨entry, rings, table, used, brk, htake, hring, htable, hused, hroom, hle, hlt, hfresh⟩ :=
    h.takeEntry
  generalize hys : (if cache.limit ≤ xs.length then xs.dropLast else xs) = ys at *
  have hsub : ∀ e ∈ ys, e ∈ xs := by
    intro e he
    rw [← hys] at he
    split at he
    · exact List.dropLast_subset _ he
    · exact he
  have hkey : key ∉ (ys.map fun e => (e.2.key, e.1)).map Prod.fst := by
    intro hmem
    rw [List.map_map] at hmem
    obtain ⟨e, he, heq⟩ := List.mem_map.mp hmem
    exact List.find?_eq_none.mp hmiss e (hsub e he) (decide_eq_true heq)
  obtain ⟨ht, table', info, henter, htable', hinfo, hinfoKey⟩ := htable.enter hkey entry
  obtain ⟨rings', happend, hring'⟩ := hring.append (not_mem_ptrs hfresh)
  refine ⟨entry,
    Ctable.setEntry { cache with table := table', used, rings := rings', brk } entry
      { key := info.item.key, value := fresh },
    ?_, ?_, rfl, rfl⟩
  · rw [ctableLocate, bind_of_ok (h.find key), hmiss]
    simp only [Option.map_none, htake, henter, hinfo, happend, deref, bind, Except.bind]
  · constructor
    case ring => exact hring'
    case entries =>
      intro e he
      rcases List.mem_cons.mp he with rfl | he
      · rw [hinfoKey]
        exact Function.update_self ..
      · have hne : e.1 ≠ entry := fun heq => hfresh (heq ▸ List.mem_map_of_mem he)
        exact (Function.update_of_ne hne ..).trans (h.entries e (hsub e he))
    case table => exact htable'
    case used => exact hused
    case room => exact hused ▸ hroom
    case limit_pos => exact h.limit_pos
    case below =>
      intro e he
      rcases List.mem_cons.mp he with rfl | he
      · exact hlt
      · exact Nat.lt_of_lt_of_le (h.below e (hsub e he)) hle

/-- A key that is in the cache: its entry goes to the front, with the value it has or a new one. -/
theorem hit (h : Caches cache (xs ++ e :: ys)) (value : V) :
    ∃ rings, Util.moveToFront (cache.setEntry e.1 { key := e.2.key, value }) e.1
        = .ok { cache.setEntry e.1 { key := e.2.key, value } with rings } ∧
      Caches { cache.setEntry e.1 { key := e.2.key, value } with rings }
        ((e.1, { key := e.2.key, value }) :: (xs ++ ys)) := by
  have hnodup := (List.perm_middle.map Prod.fst).nodup_iff.mp h.addrs_nodup
  have hapart := (List.nodup_cons.mp hnodup).1
  have hin : ∀ f ∈ xs ++ ys, f ∈ xs ++ e :: ys := fun f hf =>
    ((List.Sublist.refl _).append (List.sublist_cons_self e _)).subset hf
  have hchanged : Caches (cache.setEntry e.1 { key := e.2.key, value })
      (xs ++ (e.1, { key := e.2.key, value }) :: ys) := by
    refine ⟨?_, fun f hf => ?_, ?_, ?_, ?_, h.limit_pos, fun f hf => ?_⟩
    · have hring := h.ring
      rw [ptrs, List.map_append, List.map_cons] at hring ⊢
      exact hring
    · rcases List.mem_cons.mp (List.perm_middle.subset hf) with rfl | hf
      · exact Function.update_self ..
      · have hne : f.1 ≠ e.1 := fun heq => hapart (heq ▸ List.mem_map_of_mem hf)
        exact (Function.update_of_ne hne ..).trans (h.entries f (hin f hf))
    · have htable := h.table
      rw [List.map_append, List.map_cons] at htable ⊢
      exact htable
    · have hused := h.used
      rw [List.length_append, List.length_cons] at hused ⊢
      exact hused
    · have hroom := h.room
      rw [List.length_append, List.length_cons] at hroom ⊢
      exact hroom
    · rcases List.mem_cons.mp (List.perm_middle.subset hf) with rfl | hf
      · exact h.below e (List.mem_append_right _ (List.mem_cons_self ..))
      · exact h.below f (hin f hf)
  obtain ⟨rings, hmove, hring⟩ := hchanged.moveToFront
  refine ⟨rings, hmove, hring, fun f hf => ?_, ?_, ?_, ?_, h.limit_pos, fun f hf => ?_⟩
  · exact hchanged.entries f (List.perm_middle.symm.subset hf)
  · exact hchanged.table.perm (List.perm_middle.map _)
  · exact hchanged.used.trans List.perm_middle.length_eq
  · exact List.perm_middle.length_eq ▸ hchanged.room
  · exact hchanged.below f (List.perm_middle.symm.subset hf)

/-- A walk from the head comes to the entries in their order. -/
theorem readEntries_eq (h : Caches cache xs) {zs : List (Nat × CtableEntry V)}
    (hzs : ∀ e ∈ zs, e ∈ xs) : readEntries cache (ptrs zs) = .ok (zs.map Prod.snd) := by
  induction zs with
  | nil => rfl
  | cons e zs ih =>
      rw [ptrs, List.map_cons, readEntries]
      show (deref (cache.entries e.1) >>= _) = _
      rw [h.entries e (hzs e (List.mem_cons_self ..))]
      show (readEntries cache (ptrs zs) >>= _) = _
      rw [ih fun f hf => hzs f (List.mem_cons_of_mem _ hf)]
      rfl

theorem walk (h : Caches cache xs) : ctableWalk cache = .ok (xs.map Prod.snd) := by
  rw [ctableWalk, h.ring.walk_eq (by rw [ptrs, List.length_map, h.used]; exact Nat.lt_succ_self _)]
  exact h.readEntries_eq fun _ he => he

theorem free (h : Caches cache xs) :
    ∃ calls, ctableFree cache = .ok calls ∧
      calls.Perm (xs.map fun e => .delete e.2.value cache.context) := by
  obtain ⟨entries, hfree, hperm⟩ := h.table.free
  rw [List.map_map] at hperm
  obtain ⟨zs, rfl, hzs⟩ : ∃ zs : List (Nat × CtableEntry V), entries = zs.map Prod.fst ∧ zs.Perm xs :=
    (congrFun₂ (List.eq_map_comp_perm Prod.fst) entries xs).mpr hperm
  refine ⟨(zs.map Prod.snd).map fun entry => .delete entry.value cache.context, ?_, ?_⟩
  · rw [ctableFree, bind_of_ok hfree]
    show (readEntries cache ((zs.map Prod.fst).map RingPtr.entry) >>= _) = _
    rw [List.map_map]
    show (readEntries cache (ptrs zs) >>= _) = _
    rw [h.readEntries_eq fun e he => hzs.subset he]
    rfl
  · rw [List.map_map]
    exact hzs.map _

end Caches

-- ============================================================================
-- Runs
-- ============================================================================

/-- The cache holds the items of the list. -/
def Ctable.Represents (cache : Ctable V C) (a : Lru V C) : Prop :=
  ∃ xs, Caches cache xs ∧ a.items = xs.map Prod.snd ∧ a.limit = cache.limit ∧
    a.context = cache.context

theorem ctableCreate_ok {limit : Int} (hlimit : 1 ≤ limit) (context : C) :
    ∃ cache : Ctable V C, ctableCreate limit context = .ok cache ∧
      cache.Represents (.start limit context) := by
  refine ⟨_, if_neg (by omega), [], ?_, rfl, ?_, rfl⟩
  · constructor
    case ring => exact Circle.init _ _
    case entries => exact fun e he => by cases he
    case table => exact Htable.Maps.create limit
    case used => rfl
    case room => exact Nat.zero_le _
    case limit_pos =>
      show 0 < if limit < ctableMinSize then ctableMinSize else limit.toNat
      split
      · exact Nat.succ_pos 4
      · omega
    case below => exact fun e he => by cases he
  · show max ctableMinSize limit.toNat = if limit < ctableMinSize then ctableMinSize else limit.toNat
    rw [ctableMinSize]
    split <;> omega

namespace Ctable.Represents

variable {cache : Ctable V C} {a : Lru V C}

theorem purge_eq {xs : List (Nat × CtableEntry V)} (hitems : a.items = xs.map Prod.snd)
    (hlimit : a.limit = cache.limit) (hcontext : a.context = cache.context) :
    a.purge = ((if cache.limit ≤ xs.length then xs.dropLast else xs).map Prod.snd,
      if cache.limit ≤ xs.length then
        xs.getLast?.toList.map fun last => .delete last.2.value cache.context
      else []) := by
  rw [Lru.purge, hitems, hlimit, hcontext, List.length_map]
  split
  · rw [List.map_dropLast, List.getLast?_map]
    cases xs.getLast? <;> rfl
  · rfl

/-- The other items, when the first of a key goes. -/
theorem eraseP_found {key : Key} {e : Nat × CtableEntry V} {as bs : List (Nat × CtableEntry V)}
    (hitems : a.items = (as ++ e :: bs).map Prod.snd) (hkey : e.2.key = key)
    (has : ∀ f ∈ as, (!decide (f.2.key = key)) = true) :
    a.items.eraseP (fun item => item.key = key) = (as ++ bs).map Prod.snd := by
  rw [hitems, List.eraseP_map, List.eraseP_append_right _ fun f hf => by simpa using has f hf,
    List.eraseP_cons_of_pos (by simpa using hkey)]

theorem locate (h : cache.Represents a) (key : Key) (fresh : V) :
    ∃ cache', ctableLocate cache key fresh = .ok (cache', (a.locate key fresh).2) ∧
      cache'.Represents (a.locate key fresh).1 := by
  obtain ⟨xs, hxs, hitems, hlimit, hcontext⟩ := h
  have hfind : a.items.find? (fun item => item.key = key)
      = (xs.find? fun e => e.2.key = key).map Prod.snd := by
    rw [hitems, List.find?_map]
    rfl
  rw [Lru.locate, hfind]
  cases hkey : xs.find? fun e => e.2.key = key with
  | none =>
      obtain ⟨entry, cache', hlocate, hxs', hlimit', hcontext'⟩ := hxs.locate_miss hkey fresh
      have hpurge := purge_eq hitems hlimit hcontext
      refine ⟨cache', ?_, _, hxs', ?_, hlimit.trans hlimit'.symm, hcontext.trans hcontext'.symm⟩
      · rw [hlocate, hpurge, hcontext]
        rfl
      · show _ :: a.purge.1 = _
        rw [hpurge]
        rfl
  | some e =>
      obtain ⟨hfound, as, bs, rfl, has⟩ := List.find?_eq_some_iff_append.mp hkey
      have hentry := hxs.entries e (List.mem_append_right _ (List.mem_cons_self ..))
      have hkeep : cache.setEntry e.1 { key := e.2.key, value := e.2.value } = cache := by
        show { cache with entries := Function.update cache.entries e.1 (some e.2) } = cache
        rw [← hentry, Function.update_eq_self]
      obtain ⟨rings, hmove, hxs'⟩ := hxs.hit e.2.value
      rw [hkeep] at hmove hxs'
      refine ⟨{ cache with rings }, ?_, _, hxs', ?_, hlimit, hcontext⟩
      · rw [ctableLocate, bind_of_ok (hxs.find key), hkey]
        show (moveToFront cache e.1 >>= _) = _
        rw [hmove]
        show (deref (cache.entries e.1) >>= _) = _
        rw [hentry]
        rfl
      · show e.2 :: a.items.eraseP _ = _
        rw [eraseP_found hitems (by simpa using hfound) has]
        rfl

theorem refresh (h : cache.Represents a) (key : Key) (fresh : V) :
    ∃ cache', ctableRefresh cache key fresh = .ok (cache', (a.refresh key fresh).2) ∧
      cache'.Represents (a.refresh key fresh).1 := by
  have hlocate := h.locate key fresh
  obtain ⟨xs, hxs, hitems, hlimit, hcontext⟩ := h
  have hfind : a.items.find? (fun item => item.key = key)
      = (xs.find? fun e => e.2.key = key).map Prod.snd := by
    rw [hitems, List.find?_map]
    rfl
  rw [Lru.refresh, hfind, ctableRefresh, bind_of_ok (hxs.find key)]
  cases hkey : xs.find? fun e => e.2.key = key with
  | none => exact hlocate
  | some e =>
      obtain ⟨hfound, as, bs, rfl, has⟩ := List.find?_eq_some_iff_append.mp hkey
      obtain rfl : e.2.key = key := by simpa using hfound
      obtain ⟨rings, hmove, hxs'⟩ := hxs.hit fresh
      refine ⟨_, ?_, _, hxs', ?_, hlimit, hcontext⟩
      · show (deref (cache.entries e.1) >>= _) = _
        rw [hxs.entries e (List.mem_append_right _ (List.mem_cons_self ..))]
        show (moveToFront (cache.setEntry e.1 { key := e.2.key, value := fresh }) e.1 >>= _) = _
        rw [hmove, hcontext]
        rfl
      · show _ :: a.items.eraseP _ = _
        rw [eraseP_found hitems rfl has]
        rfl

theorem step (h : cache.Represents a) (op : CtableOp V C) :
    ∃ cache', ctableStep cache op = .ok (cache', (a.step op).2) ∧
      cache'.Represents (a.step op).1 := by
  cases op with
  | locate key fresh =>
      obtain ⟨cache', hlocate, h'⟩ := h.locate key fresh
      exact ⟨cache', by rw [ctableStep, bind_of_ok hlocate]; rfl, h'⟩
  | refresh key fresh =>
      obtain ⟨cache', hrefresh, h'⟩ := h.refresh key fresh
      exact ⟨cache', by rw [ctableStep, bind_of_ok hrefresh]; rfl, h'⟩
  | newcontext context =>
      obtain ⟨xs, hxs, hitems, hlimit, -⟩ := h
      exact ⟨_, rfl, xs, { hxs with }, hitems, hlimit, rfl⟩

end Ctable.Represents

theorem runOps_ctable {limit : Int} (hlimit : 1 ≤ limit) (context : C) (ops : List (CtableOp V C)) :
    ∃ start cache, ctableCreate limit context = .ok start ∧
      runOps ctableStep start ops = .ok (cache, (runSpec Lru.step (.start limit context) ops).2) ∧
      cache.Represents (runSpec Lru.step (.start limit context) ops).1 := by
  obtain ⟨start, hcreate, hstart⟩ := ctableCreate_ok (V := V) hlimit context
  obtain ⟨cache, hrun, h⟩ := runOps_refines
    (fun _ _ op (h : Ctable.Represents _ _) (_ : True) => h.step op) hstart ops fun _ _ => trivial
  exact ⟨start, cache, hcreate, hrun, h⟩

/-- Any calls on a new cache.  They return, and call the application, as the list with the entry
    used last at the front does, and `ctable_walk` comes to the items of the list in their order. -/
theorem ctable_refines {limit : Int} (hlimit : 1 ≤ limit) (context : C)
    (ops : List (CtableOp V C)) :
    ∃ start cache, ctableCreate limit context = .ok start ∧
      runOps ctableStep start ops = .ok (cache, (runSpec Lru.step (.start limit context) ops).2) ∧
      ctableWalk cache = .ok (runSpec Lru.step (.start limit context) ops).1.items ∧
      cache.used = (runSpec Lru.step (.start limit context) ops).1.items.length := by
  obtain ⟨start, cache, hcreate, hrun, xs, hxs, hitems, -⟩ := runOps_ctable hlimit context ops
  refine ⟨start, cache, hcreate, hrun, ?_, ?_⟩
  · rw [hxs.walk, hitems]
  · rw [hxs.used, hitems, List.length_map]

/-- A limit of one is taken as five: `a` is used again, so the sixth key purges `b`. -/
theorem ctable_refines_six :
    ∃ start cache : Ctable Nat Unit, ctableCreate 1 () = .ok start ∧
      runOps ctableStep start [.locate [97] 1, .locate [98] 2, .locate [99] 3, .locate [100] 4,
          .locate [101] 5, .locate [97] 6, .locate [102] 7]
        = .ok (cache, [([.create [97] () 1], some 1), ([.create [98] () 2], some 2),
            ([.create [99] () 3], some 3), ([.create [100] () 4], some 4),
            ([.create [101] () 5], some 5), ([], some 1),
            ([.delete 2 (), .create [102] () 7], some 7)]) ∧
      ctableWalk cache = .ok [{ key := [102], value := 7 }, { key := [97], value := 1 },
        { key := [101], value := 5 }, { key := [100], value := 4 }, { key := [99], value := 3 }] ∧
      cache.used = 5 :=
  ctable_refines (Int.le_refl 1) () [.locate [97] 1, .locate [98] 2, .locate [99] 3,
    .locate [100] 4, .locate [101] 5, .locate [97] 6, .locate [102] 7]

-- ============================================================================
-- The values of the application
-- ============================================================================

/-- The value that `create` made. -/
def Callback.made : Callback V C → Option V
  | .create _ _ value => some value
  | .delete _ _ => none

/-- The value that `delete` got. -/
def Callback.dropped : Callback V C → Option V
  | .create _ _ _ => none
  | .delete value _ => some value

namespace Lru

/-- The values in the list and those that a call drops are those before and those it makes. -/
theorem step_values (a : Lru V C) (op : CtableOp V C) :
    ((a.step op).1.items.map CtableEntry.value
        ++ (a.step op).2.1.filterMap Callback.dropped).Perm
      (a.items.map CtableEntry.value ++ (a.step op).2.1.filterMap Callback.made) := by
  have hfront : ∀ {key : Key} {found : CtableEntry V},
      a.items.find? (fun item => item.key = key) = some found →
        a.items.Perm (found :: a.items.eraseP fun item => item.key = key) := by
    intro key found hfound
    obtain ⟨hkey, as, bs, hitems, has⟩ := List.find?_eq_some_iff_append.mp hfound
    rw [hitems, List.eraseP_append_right _ fun f hf => by simpa using has f hf,
      List.eraseP_cons_of_pos (by simpa using hkey)]
    exact List.perm_middle
  have hlocate : ∀ key fresh,
      ((a.locate key fresh).1.items.map CtableEntry.value
          ++ (a.locate key fresh).2.1.filterMap Callback.dropped).Perm
        (a.items.map CtableEntry.value ++ (a.locate key fresh).2.1.filterMap Callback.made) := by
    intro key fresh
    rw [locate]
    cases hfound : a.items.find? fun item => item.key = key with
    | some found => exact ((hfront hfound).symm.map _).append_right _
    | none =>
        show (fresh :: a.purge.1.map CtableEntry.value ++ _).Perm _
        have hpurge : (a.purge.1.map CtableEntry.value ++ a.purge.2.filterMap Callback.dropped).Perm
            (a.items.map CtableEntry.value) ∧ a.purge.2.filterMap Callback.made = [] := by
          rw [purge]
          split
          · cases hlast : a.items.getLast? with
            | none =>
                rw [List.getLast?_eq_none_iff.mp hlast]
                exact ⟨.refl _, rfl⟩
            | some last =>
                obtain ⟨zs, hzs⟩ := List.getLast?_eq_some_iff.mp hlast
                rw [hzs, List.dropLast_concat, List.map_append]
                exact ⟨.refl _, rfl⟩
          · rw [List.filterMap_nil, List.append_nil]
            exact ⟨.refl _, rfl⟩
        rw [List.filterMap_append, List.filterMap_append, hpurge.2]
        show (fresh :: (a.purge.1.map CtableEntry.value
            ++ (a.purge.2.filterMap Callback.dropped ++ []))).Perm
          (a.items.map CtableEntry.value ++ [fresh])
        rw [List.append_nil]
        exact (hpurge.1.cons fresh).trans (List.perm_append_singleton fresh _).symm
  cases op with
  | locate key fresh => exact hlocate key fresh
  | refresh key fresh =>
      rw [step, refresh]
      cases hfound : a.items.find? fun item => item.key = key with
      | none => exact hlocate key fresh
      | some found =>
          show (fresh :: (a.items.eraseP _).map CtableEntry.value ++ [found.value]).Perm
            (a.items.map CtableEntry.value ++ [fresh])
          refine List.Perm.trans ?_
            (((hfront hfound).symm.map CtableEntry.value).append_right [fresh])
          exact ((List.perm_append_singleton found.value _).cons fresh).trans
            (List.perm_append_singleton fresh _).symm
  | newcontext context => exact .refl _

theorem run_values (a : Lru V C) (ops : List (CtableOp V C)) :
    ((runSpec step a ops).1.items.map CtableEntry.value
        ++ ((runSpec step a ops).2.flatMap Prod.fst).filterMap Callback.dropped).Perm
      (a.items.map CtableEntry.value
        ++ ((runSpec step a ops).2.flatMap Prod.fst).filterMap Callback.made) := by
  induction ops generalizing a with
  | nil => exact .refl _
  | cons op ops ih =>
      have hone := a.step_values op
      have hrest := ih (a.step op).1
      rw [runSpec]
      simp only [List.flatMap_cons, List.filterMap_append]
      rw [← List.append_assoc, ← List.append_assoc]
      refine (List.perm_append_comm.append_right _).trans ?_
      rw [List.append_assoc]
      refine (hrest.append_left _).trans ?_
      rw [← List.append_assoc]
      exact (List.perm_append_comm.trans hone).append_right _

end Lru

/-- From `ctable_create` to `ctable_free`: `delete` gets each value that `create` made once, and no
    other. -/
theorem ctable_balance {limit : Int} (hlimit : 1 ≤ limit) (context : C)
    (ops : List (CtableOp V C)) :
    ∃ start cache outs calls, ctableCreate limit context = .ok start ∧
      runOps ctableStep start ops = .ok (cache, outs) ∧ ctableFree cache = .ok calls ∧
      ((outs.flatMap Prod.fst ++ calls).filterMap Callback.dropped).Perm
        ((outs.flatMap Prod.fst ++ calls).filterMap Callback.made) := by
  obtain ⟨start, cache, hcreate, hrun, xs, hxs, hitems, -⟩ := runOps_ctable hlimit context ops
  obtain ⟨calls, hfree, hcalls⟩ := hxs.free
  have hvalues := Lru.run_values (.start limit context) ops
  rw [hitems, List.map_map] at hvalues
  refine ⟨start, cache, _, calls, hcreate, hrun, hfree, ?_⟩
  have hdropped : (calls.filterMap Callback.dropped).Perm (xs.map fun e => e.2.value) := by
    refine (hcalls.filterMap _).trans ?_
    rw [List.filterMap_map]
    show (xs.filterMap fun e => some e.2.value).Perm _
    rw [List.filterMap_eq_map']
  have hmade : calls.filterMap Callback.made = [] := by
    refine List.filterMap_eq_nil_iff.mpr fun call hcall => ?_
    obtain ⟨e, -, rfl⟩ := List.mem_map.mp (hcalls.subset hcall)
    rfl
  rw [List.filterMap_append, List.filterMap_append, hmade, List.append_nil]
  exact ((hdropped.append_left _).trans List.perm_append_comm).trans hvalues

/-- A value that is refreshed, and one that stays. -/
theorem ctable_balance_two :
    ∃ start cache outs calls, (ctableCreate 2 () : Except Stop (Ctable Nat Unit)) = .ok start ∧
      runOps ctableStep start [.locate [97] 1, .refresh [97] 2, .locate [98] 3] = .ok (cache, outs) ∧
      ctableFree cache = .ok calls ∧
      ((outs.flatMap Prod.fst ++ calls).filterMap Callback.dropped).Perm
        ((outs.flatMap Prod.fst ++ calls).filterMap Callback.made) :=
  ctable_balance (by decide) () [.locate [97] 1, .refresh [97] 2, .locate [98] 3]

end LinuxCodeDemos.Util

/-
  LinuxCodeDemos.Lib.Traced

  Computations that may fault, together with the events they leave behind.  A
  fault ends the computation and keeps the events so far.

  `all_bind` takes a property of all events of a sequence apart; a traced version
  of a program is compared with the program by `result_bind`.
-/

import LinuxCodeDemos.Lib.Memory

namespace LinuxCodeDemos.Lib

/-- The events of a computation and its outcome. -/
structure Traced (κ α : Type) where
  events : List κ
  result : Except Fault α

namespace Traced

variable {κ α β : Type}

/-- One event. -/
def emit (e : κ) : Traced κ Unit := { events := [e], result := .ok () }

/-- A computation without events. -/
def lift (x : Except Fault α) : Traced κ α := { events := [], result := x }

def andThen (t : Traced κ α) (f : α → Traced κ β) : Traced κ β :=
  match t.result with
  | .error e => { events := t.events, result := .error e }
  | .ok a => { events := t.events ++ (f a).events, result := (f a).result }

instance : Monad (Traced κ) where
  pure a := { events := [], result := .ok a }
  bind := andThen

/-- Every event satisfies `P`. -/
def All (P : κ → Prop) (t : Traced κ α) : Prop := ∀ e ∈ t.events, P e

section Results

@[simp] theorem result_emit (e : κ) : (emit e).result = .ok () := rfl

@[simp] theorem result_lift (x : Except Fault α) : (lift x : Traced κ α).result = x := rfl

@[simp] theorem result_bind (t : Traced κ α) (f : α → Traced κ β) :
    (t >>= f).result = t.result >>= fun a => (f a).result := by
  show (andThen t f).result = _
  rw [andThen]
  cases t.result <;> rfl

theorem ok_bind (a : α) (f : α → Except Fault β) : (Except.ok a >>= f) = f a := rfl

/-- What holds after a result holds of it. -/
theorem forall_ok_iff {a : α} {P : α → Prop} :
    (∀ b, (Except.ok a : Except Fault α) = .ok b → P b) ↔ P a := by
  refine ⟨?_, ?_⟩
  · intro h
    exact h a rfl
  · intro h b hb
    cases hb
    exact h

end Results

section Events

variable {P : κ → Prop}

@[simp] theorem all_pure (a : α) : All P (pure a : Traced κ α) ↔ True :=
  iff_of_true (fun _ h => nomatch h) trivial

@[simp] theorem all_emit (e : κ) : All P (emit e) ↔ P e := List.forall_mem_singleton

@[simp] theorem all_lift (x : Except Fault α) : All P (lift x : Traced κ α) ↔ True :=
  iff_of_true (fun _ h => nomatch h) trivial

/-- A sequence satisfies `P` when its first part does and, unless it faults, the
    second does after it. -/
theorem all_bind (t : Traced κ α) (f : α → Traced κ β) :
    All P (t >>= f) ↔ All P t ∧ ∀ a, t.result = .ok a → All P (f a) := by
  show All P (andThen t f) ↔ _
  rw [andThen]
  cases h : t.result with
  | error e => exact ⟨fun ht => ⟨ht, fun _ hok => nomatch hok⟩, fun ht => ht.1⟩
  | ok a => rw [forall_ok_iff, All, All, All, ← List.forall_mem_append]

theorem all_lift_bind {x : Except Fault α} {a : α} (h : x = .ok a) (f : α → Traced κ β) :
    All P (lift x >>= f) ↔ All P (f a) := by
  rw [all_bind, result_lift, h, forall_ok_iff, all_lift, true_and]

theorem all_emit_bind (e : κ) (f : Unit → Traced κ β) :
    All P (emit e >>= f) ↔ P e ∧ All P (f ()) := by
  rw [all_bind, all_emit]
  exact and_congr_right fun _ => ⟨fun h => h () rfl, fun h _ _ => h⟩

end Events

end Traced

end LinuxCodeDemos.Lib

/-
  LinuxCodeDemos.Lib.Machine

  Runs of a machine that may fault, and the run-level form of a simulation.

  `runOps step s is` feeds the inputs one after the other and collects one
  output per input.  `runSpec` is the same for a total specification machine.
  A relation kept by every single step gives equal outputs over every run
  (`runOps_refines`).  `Along` says that every step of a run meets a condition;
  `runOps_ne_error_of_along` and `along_of_runOps_ne_error` turn "this step
  faults exactly when the condition fails" into the same for runs.  `runOps_agree`
  is `runOps_refines` for a specification that may fail as well.
-/

import Mathlib.Data.List.Basic

namespace LinuxCodeDemos.Lib

variable {σ α ι ο ε : Type _}

/-- Feed a list of inputs to a machine that may fault. -/
def runOps (step : σ → ι → Except ε (σ × ο)) : σ → List ι → Except ε (σ × List ο)
  | s, [] => .ok (s, [])
  | s, i :: is =>
      match step s i with
      | .error e => .error e
      | .ok (s', o) =>
          match runOps step s' is with
          | .error e => .error e
          | .ok (s'', os) => .ok (s'', o :: os)

/-- Feed a list of inputs to a total machine. -/
def runSpec (step : α → ι → α × ο) : α → List ι → α × List ο
  | a, [] => (a, [])
  | a, i :: is =>
      let (a', o) := step a i
      let (a'', os) := runSpec step a' is
      (a'', o :: os)

section Runs

variable {step : σ → ι → Except ε (σ × ο)}

theorem runOps_cons_ok {s s' : σ} {i : ι} {o : ο} (h : step s i = .ok (s', o)) (is : List ι) :
    runOps step s (i :: is) =
      match runOps step s' is with
      | .error e => .error e
      | .ok (s'', os) => .ok (s'', o :: os) := by
  simp only [runOps, h]

/-- One step in front of a run that is known to succeed. -/
theorem runOps_cons {s s' s'' : σ} {i : ι} {o : ο} {is : List ι} {os : List ο}
    (h : step s i = .ok (s', o)) (hrun : runOps step s' is = .ok (s'', os)) :
    runOps step s (i :: is) = .ok (s'', o :: os) := by
  rw [runOps_cons_ok h, hrun]

/-- Inversion of a successful run that makes at least one step. -/
theorem runOps_cons_inv {s s'' : σ} {i : ι} {is : List ι} {os : List ο}
    (h : runOps step s (i :: is) = .ok (s'', os)) :
    ∃ s' o os', step s i = .ok (s', o) ∧ runOps step s' is = .ok (s'', os') ∧ os = o :: os' := by
  unfold runOps at h
  split at h
  · cases h
  · next s' o hstep =>
      split at h
      · cases h
      · next r os' hrun =>
          cases h
          exact ⟨s', o, os', hstep, hrun, rfl⟩

/-- Successful runs compose. -/
theorem runOps_append {s s' s'' : σ} {is js : List ι} {os ps : List ο}
    (h₁ : runOps step s is = .ok (s', os)) (h₂ : runOps step s' js = .ok (s'', ps)) :
    runOps step s (is ++ js) = .ok (s'', os ++ ps) := by
  induction is generalizing s os with
  | nil =>
      cases h₁
      exact h₂
  | cons i is ih =>
      obtain ⟨t, o, os', hstep, hrun, rfl⟩ := runOps_cons_inv h₁
      exact runOps_cons hstep (ih hrun)

/-- Machines that agree on the inputs of a run have the same run. -/
theorem runOps_congr {step' : σ → ι → Except ε (σ × ο)} {is : List ι}
    (h : ∀ i ∈ is, ∀ s, step s i = step' s i) (s : σ) : runOps step s is = runOps step' s is := by
  induction is generalizing s with
  | nil => rfl
  | cons i is ih =>
      have ih' := ih fun j hj => h j (List.mem_cons_of_mem _ hj)
      simp only [runOps, h i (List.mem_cons_self ..), ih']

/-- Every step of the run meets `cond`, a condition on the state before it and
    its input. -/
def Along (step : σ → ι → Except ε (σ × ο)) (cond : σ → ι → Prop) : σ → List ι → Prop
  | _, [] => True
  | s, i :: is => cond s i ∧ ∀ s' o, step s i = .ok (s', o) → Along step cond s' is

instance decidableAlong {cond : σ → ι → Prop} [∀ s i, Decidable (cond s i)] :
    (s : σ) → (is : List ι) → Decidable (Along step cond s is)
  | _, [] => .isTrue trivial
  | s, i :: is =>
      match h : step s i with
      | .error _ => decidable_of_iff (cond s i)
          ⟨fun hi => ⟨hi, fun _ _ hstep => nomatch h.symm.trans hstep⟩, And.left⟩
      | .ok (s', _) =>
          have : Decidable (Along step cond s' is) := decidableAlong s' is
          decidable_of_iff (cond s i ∧ Along step cond s' is)
            ⟨fun hi => ⟨hi.1, fun _ _ hstep => by cases h.symm.trans hstep; exact hi.2⟩,
              fun hi => ⟨hi.1, hi.2 _ _ h⟩⟩

/-- Conditions that agree on every step agree along every run. -/
theorem along_congr {cond cond' : σ → ι → Prop} (h : ∀ s i, cond s i ↔ cond' s i) (s : σ)
    (is : List ι) : Along step cond s is ↔ Along step cond' s is := by
  induction is generalizing s with
  | nil => exact Iff.rfl
  | cons i is ih =>
      exact and_congr (h s i) (forall_congr' fun s' => forall_congr' fun _ =>
        imp_congr_right fun _ => ih s')

/-- Steps that meet `cond` keep `Inv` and do not end in `e`, so no run does. -/
theorem runOps_ne_error_of_along {Inv : σ → Prop} {cond : σ → ι → Prop} {e : ε}
    (hsafe : ∀ s i, Inv s → cond s i → step s i ≠ .error e)
    (hkeep : ∀ s i s' o, Inv s → cond s i → step s i = .ok (s', o) → Inv s')
    {s : σ} {is : List ι} (hs : Inv s) (h : Along step cond s is) :
    runOps step s is ≠ .error e := by
  induction is generalizing s with
  | nil => exact fun hrun => nomatch hrun
  | cons i is ih =>
      obtain ⟨hi, hrest⟩ := h
      have hne := hsafe s i hs hi
      cases hstep : step s i with
      | error e' =>
          rw [hstep] at hne
          simp only [runOps, hstep]
          exact fun heq => hne (by cases heq; rfl)
      | ok x =>
          obtain ⟨s', o⟩ := x
          have hrun := ih (hkeep s i s' o hs hi hstep) (hrest s' o hstep)
          rw [runOps_cons_ok hstep]
          cases hr : runOps step s' is with
          | error e' =>
              rw [hr] at hrun
              exact hrun
          | ok y => exact fun h => nomatch h

/-- Where a step that misses `cond` ends in `e`, the condition is exact. -/
theorem along_of_runOps_ne_error {Inv : σ → Prop} {cond : σ → ι → Prop} {e : ε}
    (hfault : ∀ s i, Inv s → ¬ cond s i → step s i = .error e)
    (hkeep : ∀ s i s' o, Inv s → cond s i → step s i = .ok (s', o) → Inv s')
    {s : σ} {is : List ι} (hs : Inv s) (h : runOps step s is ≠ .error e) :
    Along step cond s is := by
  induction is generalizing s with
  | nil => trivial
  | cons i is ih =>
      have hi : cond s i := by
        by_contra hno
        exact h (by simp only [runOps, hfault s i hs hno])
      refine ⟨hi, fun s' o hstep => ih (hkeep s i s' o hs hi hstep) fun hrun => h ?_⟩
      rw [runOps_cons_ok hstep, hrun]

/-- A simulation of single steps is a simulation of runs, with equal outputs. -/
theorem runOps_refines {spec : α → ι → α × ο} {R : σ → α → Prop} {ok : ι → Prop}
    (hstep : ∀ s a i, R s a → ok i →
      ∃ s', step s i = .ok (s', (spec a i).2) ∧ R s' (spec a i).1)
    {s : σ} {a : α} (hs : R s a) (is : List ι) (his : ∀ i ∈ is, ok i) :
    ∃ s', runOps step s is = .ok (s', (runSpec spec a is).2) ∧ R s' (runSpec spec a is).1 := by
  induction is generalizing s a with
  | nil => exact ⟨s, rfl, hs⟩
  | cons i is ih =>
      obtain ⟨t, hi, ht⟩ := hstep s a i hs (his i (List.mem_cons_self ..))
      obtain ⟨s', hrun, hR⟩ := ih ht (fun j hj => his j (List.mem_cons_of_mem _ hj))
      exact ⟨s', runOps_cons hi hrun, hR⟩

/-- Two computations fail alike, or they give the same output and end in related states. -/
def Agree (R : σ → α → Prop) : Except ε (σ × ο) → Except ε (α × ο) → Prop
  | .ok (s, o), .ok (a, o') => R s a ∧ o = o'
  | .error e, .error e' => e = e'
  | _, _ => False

theorem Agree.mono {R R' : σ → α → Prop} {x : Except ε (σ × ο)} {y : Except ε (α × ο)}
    (h : Agree R x y) (hR : ∀ s a, R s a → R' s a) : Agree R' x y := by
  cases x with
  | error e =>
      cases y with
      | error e' => exact h
      | ok b => exact h
  | ok a =>
      cases y with
      | error e' => exact h
      | ok b => exact ⟨hR _ _ h.1, h.2⟩

/-- Steps that agree with a specification that may fail are runs that agree with it. -/
theorem runOps_agree {spec : α → ι → Except ε (α × ο)} {R : σ → α → Prop}
    (hstep : ∀ s a i, R s a → Agree R (step s i) (spec a i)) {s : σ} {a : α} (hs : R s a)
    (is : List ι) : Agree R (runOps step s is) (runOps spec a is) := by
  induction is generalizing s a with
  | nil => exact ⟨hs, rfl⟩
  | cons i is ih =>
      have hone := hstep s a i hs
      cases hi : step s i with
      | error e =>
          cases hi' : spec a i with
          | error e' =>
              rw [hi, hi'] at hone
              simp only [runOps, hi, hi']
              exact hone
          | ok y =>
              rw [hi, hi'] at hone
              exact hone.elim
      | ok x =>
          cases hi' : spec a i with
          | error e' =>
              rw [hi, hi'] at hone
              exact hone.elim
          | ok y =>
              rw [hi, hi'] at hone
              obtain ⟨hR, ho⟩ := hone
              have hrest := ih hR
              rw [runOps_cons_ok hi, runOps_cons_ok hi']
              cases hr : runOps step x.1 is with
              | error e =>
                  cases hr' : runOps spec y.1 is with
                  | error e' =>
                      rw [hr, hr'] at hrest
                      exact hrest
                  | ok z =>
                      rw [hr, hr'] at hrest
                      exact hrest.elim
              | ok w =>
                  cases hr' : runOps spec y.1 is with
                  | error e' =>
                      rw [hr, hr'] at hrest
                      exact hrest.elim
                  | ok z =>
                      rw [hr, hr'] at hrest
                      exact ⟨hrest.1, congrArg₂ List.cons ho hrest.2⟩

end Runs

end LinuxCodeDemos.Lib

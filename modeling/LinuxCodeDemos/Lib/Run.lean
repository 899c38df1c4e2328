/-
  LinuxCodeDemos.Lib.Run

  Runs of a machine that is fed one input after the other and may stop in a
  fault, and rules for invariants over them.

  - `Ends P F x`: the computation `x` ends in a state with `P` or in a fault with
    `F`.  `Ends.bind` takes sequences apart.
  - `AlongRun`: every step of a run meets a condition on the state before it and
    its input.
  - `runSteps_ends`: what every such step keeps holds after every such run.
  - `alongRun_congr`: conditions that say the same under an invariant say the same of runs.
  - `everyState_iff`: a property that a step without the condition loses at once holds in all
    states of a run exactly if all its steps meet the condition.
  - `runSteps_stops`: an input that stops every step stops every run that has it.
  - `runSteps_map`: two machines that look the same from outside after each step
    look the same after each run; `runSteps_view` for a machine with more state than the other.
-/

import Mathlib.Data.List.Basic

namespace LinuxCodeDemos.Lib

variable {σ τ ι ε : Type _}

/-- Feed a list of inputs to a machine. -/
def runSteps (step : σ → ι → Except ε σ) : σ → List ι → Except ε σ
  | s, [] => .ok s
  | s, i :: is =>
      match step s i with
      | .error e => .error e
      | .ok s' => runSteps step s' is

/-- The computation ends in a state with `P` or in a fault with `F`. -/
def Ends (P : σ → Prop) (F : ε → Prop) : Except ε σ → Prop
  | .ok s => P s
  | .error e => F e

/-- Every step of the run meets `cond`. -/
def AlongRun (step : σ → ι → Except ε σ) (cond : σ → ι → Prop) : σ → List ι → Prop
  | _, [] => True
  | s, i :: is => cond s i ∧ ∀ s', step s i = .ok s' → AlongRun step cond s' is

/-- Every state that the run comes to has `P`. -/
def EveryState (step : σ → ι → Except ε σ) (P : σ → Prop) : σ → List ι → Prop
  | s, [] => P s
  | s, i :: is => P s ∧ ∀ s', step s i = .ok s' → EveryState step P s' is

section Ending

variable {P P' : σ → Prop} {F F' : ε → Prop}

theorem Ends.of_ok {x : Except ε σ} (h : Ends P F x) {s : σ} (hx : x = .ok s) : P s := by
  rw [hx] at h
  exact h

theorem Ends.of_error {x : Except ε σ} (h : Ends P F x) {e : ε} (hx : x = .error e) : F e := by
  rw [hx] at h
  exact h

theorem Ends.mono {x : Except ε σ} (h : Ends P F x) (hP : ∀ s, P s → P' s) (hF : ∀ e, F e → F' e) :
    Ends P' F' x := by
  cases x with
  | ok s => exact hP s h
  | error e => exact hF e h

/-- A computation without faults. -/
theorem Ends.exists_ok {x : Except ε σ} (h : Ends P (fun _ => False) x) :
    ∃ s, x = .ok s ∧ P s := by
  cases x with
  | ok s => exact ⟨s, rfl, h⟩
  | error e => exact h.elim

/-- A sequence of two computations. -/
theorem Ends.bind {Q : τ → Prop} {x : Except ε σ} {f : σ → Except ε τ} (hx : Ends P F x)
    (hf : ∀ s, P s → Ends Q F (f s)) : Ends Q F (x >>= f) := by
  cases x with
  | ok s => exact hf s hx
  | error e => exact hx

/-- A first computation of which nothing is needed. -/
theorem Ends.bind_any {Q : τ → Prop} {x : Except ε σ} {f : σ → Except ε τ}
    (hf : ∀ s, Ends Q (fun _ => True) (f s)) : Ends Q (fun _ => True) (x >>= f) := by
  cases x with
  | ok s => exact hf s
  | error e => trivial

/-- What is known of every result. -/
theorem ends_of_forall {x : Except ε σ} (h : ∀ s, x = .ok s → P s) : Ends P (fun _ => True) x := by
  cases x with
  | ok s => exact h s rfl
  | error e => trivial

/-- A computation whose first part comes to a result. -/
theorem bind_of_ok {x : Except ε σ} {f : σ → Except ε τ} {s : σ} (h : x = .ok s) :
    (x >>= f) = f s := by
  rw [h]
  rfl

/-- A computation that comes to a result has come through its first part. -/
theorem exists_ok_of_bind {x : Except ε σ} {f : σ → Except ε τ} {v : τ} (h : (x >>= f) = .ok v) :
    ∃ s, x = .ok s ∧ f s = .ok v := by
  cases x with
  | ok s => exact ⟨s, rfl, h⟩
  | error e => cases h

/-- A computation whose result is known from one side. -/
theorem exists_ok_of_map {view : σ → τ} {x : Except ε σ} {v : τ} (h : x.map view = .ok v) :
    ∃ s, x = .ok s ∧ view s = v := by
  cases x with
  | ok s => exact ⟨s, rfl, Except.ok.inj h⟩
  | error e => cases h

/-- Two computations that look the same fail alike or end in states that look the same. -/
theorem map_eq_map_cases {view : σ → τ} {x y : Except ε σ} (h : x.map view = y.map view) :
    (∃ e, x = .error e ∧ y = .error e) ∨
      ∃ s t, x = .ok s ∧ y = .ok t ∧ view s = view t := by
  cases x with
  | error e =>
      cases y with
      | error e' =>
          have he : e = e' := Except.error.inj h
          exact .inl ⟨e, rfl, by rw [he]⟩
      | ok t => cases h
  | ok s =>
      cases y with
      | error e' => cases h
      | ok t => exact .inr ⟨s, t, rfl, rfl, Except.ok.inj h⟩

end Ending

section Runs

variable {step : σ → ι → Except ε σ}

theorem runSteps_cons_ok {s s' : σ} {i : ι} (h : step s i = .ok s') (is : List ι) :
    runSteps step s (i :: is) = runSteps step s' is := by
  rw [runSteps, h]

theorem runSteps_append_ok {s s' : σ} {is : List ι} (h : runSteps step s is = .ok s')
    (js : List ι) : runSteps step s (is ++ js) = runSteps step s' js := by
  induction is generalizing s with
  | nil =>
      cases h
      rfl
  | cons i is ih =>
      rw [List.cons_append, runSteps]
      rw [runSteps] at h
      cases hi : step s i with
      | error e =>
          rw [hi] at h
          cases h
      | ok t =>
          rw [hi] at h
          exact ih h

/-- Steps that meet `cond` keep `Inv` and stop only in `F`, and so does every run. -/
theorem runSteps_ends {Inv : σ → Prop} {F : ε → Prop} {cond : σ → ι → Prop}
    (hstep : ∀ s i, Inv s → cond s i → Ends Inv F (step s i)) {s : σ} {is : List ι} (hs : Inv s)
    (hcond : AlongRun step cond s is) : Ends Inv F (runSteps step s is) := by
  induction is generalizing s with
  | nil => exact hs
  | cons i is ih =>
      obtain ⟨hi, hrest⟩ := hcond
      have hone := hstep s i hs hi
      rw [runSteps]
      split
      · next e he => exact hone.of_error he
      · next s' hs' => exact ih (hone.of_ok hs') (hrest s' hs')

instance decidableAlongRun {cond : σ → ι → Prop} [∀ s i, Decidable (cond s i)] :
    (s : σ) → (is : List ι) → Decidable (AlongRun step cond s is)
  | _, [] => .isTrue trivial
  | s, i :: is =>
      match h : step s i with
      | .error _ => decidable_of_iff (cond s i)
          ⟨fun hc => ⟨hc, fun _ hs' => nomatch h.symm.trans hs'⟩, fun hc => hc.1⟩
      | .ok s' =>
          letI : Decidable (AlongRun step cond s' is) := decidableAlongRun s' is
          decidable_of_iff (cond s i ∧ AlongRun step cond s' is)
            ⟨fun hc => ⟨hc.1, fun _ ht => (Except.ok.inj (h.symm.trans ht)) ▸ hc.2⟩,
              fun hc => ⟨hc.1, hc.2 s' h⟩⟩

/-- A condition that every step meets. -/
theorem alongRun_of_forall {cond : σ → ι → Prop} {is : List ι} (h : ∀ i ∈ is, ∀ s, cond s i)
    (s : σ) : AlongRun step cond s is := by
  induction is generalizing s with
  | nil => trivial
  | cons i is ih =>
      refine ⟨h i (List.mem_cons_self ..) s, fun s' _ => ?_⟩
      exact ih (fun j hj => h j (List.mem_cons_of_mem _ hj)) s'

/-- Two conditions that are the same under an invariant, which they keep, are met by the same
    runs. -/
theorem alongRun_congr {Inv : σ → Prop} {ok : ι → Prop} {cond cond' : σ → ι → Prop}
    (hsame : ∀ s i, Inv s → ok i → (cond s i ↔ cond' s i))
    (hkeep : ∀ s i s', Inv s → ok i → cond' s i → step s i = .ok s' → Inv s') {s : σ}
    {is : List ι} (hs : Inv s) (his : ∀ i ∈ is, ok i) :
    AlongRun step cond s is ↔ AlongRun step cond' s is := by
  induction is generalizing s with
  | nil => exact Iff.rfl
  | cons i is ih =>
      obtain ⟨hi, hrest⟩ := List.forall_mem_cons.mp his
      have hhead := hsame s i hs hi
      refine ⟨?_, ?_⟩
      · rintro ⟨hc, htail⟩
        refine ⟨hhead.mp hc, fun s' hs' => ?_⟩
        exact (ih (hkeep s i s' hs hi (hhead.mp hc) hs') hrest).mp (htail s' hs')
      · rintro ⟨hc, htail⟩
        refine ⟨hhead.mpr hc, fun s' hs' => ?_⟩
        exact (ih (hkeep s i s' hs hi hc hs') hrest).mpr (htail s' hs')

/-- Steps that meet `cond` keep `Inv`, which gives `P`; a step that does not meet it ends in a
    state without `P`. -/
theorem everyState_iff {Inv P : σ → Prop} {cond : σ → ι → Prop} (hP : ∀ s, Inv s → P s)
    (hgood : ∀ s i s', Inv s → cond s i → step s i = .ok s' → Inv s')
    (hbad : ∀ s i, Inv s → ¬ cond s i → ∃ s', step s i = .ok s' ∧ ¬ P s') {s : σ} (hs : Inv s)
    (is : List ι) : EveryState step P s is ↔ AlongRun step cond s is := by
  induction is generalizing s with
  | nil => exact ⟨fun _ => trivial, fun _ => hP s hs⟩
  | cons i is ih =>
      refine ⟨?_, ?_⟩
      · rintro ⟨_, htail⟩
        have hcond : cond s i := by
          by_contra hfail
          obtain ⟨s', hstep, hlost⟩ := hbad s i hs hfail
          apply hlost
          cases is with
          | nil => exact htail s' hstep
          | cons j is => exact (htail s' hstep).1
        refine ⟨hcond, fun s' hstep => ?_⟩
        exact (ih (hgood s i s' hs hcond hstep)).mp (htail s' hstep)
      · rintro ⟨hcond, htail⟩
        refine ⟨hP s hs, fun s' hstep => ?_⟩
        exact (ih (hgood s i s' hs hcond hstep)).mpr (htail s' hstep)

/-- What every step keeps holds in every state of every run. -/
theorem everyState_keeps {Inv P : σ → Prop} (hP : ∀ s, Inv s → P s)
    (hkeep : ∀ s i s', Inv s → step s i = .ok s' → Inv s') {s : σ} (hs : Inv s) (is : List ι) :
    EveryState step P s is := by
  induction is generalizing s with
  | nil => exact hP s hs
  | cons i is ih => exact ⟨hP s hs, fun s' hstep => ih (hkeep s i s' hs hstep)⟩

/-- A state that goes on to one without `P` unless the run stops before. -/
theorem not_everyState_of_pending {P Pending : σ → Prop}
    (hpending : ∀ s i, Pending s → ∃ s', step s i = .ok s' ∧ (Pending s' ∨ ¬ P s')) {s : σ}
    {is : List ι} (hs : Pending s) (hend : ∀ s', runSteps step s is = .ok s' → ¬ Pending s') :
    ¬ EveryState step P s is := by
  induction is generalizing s with
  | nil => exact absurd hs (hend s rfl)
  | cons i is ih =>
      rintro ⟨-, htail⟩
      obtain ⟨s', hstep, hs' | hlost⟩ := hpending s i hs
      · refine ih hs' (fun t ht => hend t ?_) (htail s' hstep)
        rw [runSteps_cons_ok hstep, ht]
      · apply hlost
        cases is with
        | nil => exact htail s' hstep
        | cons j is => exact (htail s' hstep).1

/-- As `everyState_iff`, where `P` fails some steps after the one that does not meet `cond`. -/
theorem everyState_iff_of_pending {Inv P Pending : σ → Prop} {cond : σ → ι → Prop}
    (hP : ∀ s, Inv s → P s) (hgood : ∀ s i s', Inv s → cond s i → step s i = .ok s' → Inv s')
    (hbad : ∀ s i, Inv s → ¬ cond s i → ∃ s', step s i = .ok s' ∧ Pending s')
    (hpending : ∀ s i, Pending s → ∃ s', step s i = .ok s' ∧ (Pending s' ∨ ¬ P s')) {s : σ}
    (hs : Inv s) (is : List ι) :
    (AlongRun step cond s is → EveryState step P s is) ∧
      ((∀ s', runSteps step s is = .ok s' → ¬ Pending s') →
        EveryState step P s is → AlongRun step cond s is) := by
  induction is generalizing s with
  | nil => exact ⟨fun _ => hP s hs, fun _ _ => trivial⟩
  | cons i is ih =>
      refine ⟨?_, ?_⟩
      · rintro ⟨hcond, htail⟩
        refine ⟨hP s hs, fun s' hstep => ?_⟩
        exact (ih (hgood s i s' hs hcond hstep)).1 (htail s' hstep)
      · rintro hend ⟨_, htail⟩
        have hrest : ∀ s', step s i = .ok s' →
            ∀ t, runSteps step s' is = .ok t → ¬ Pending t := by
          intro s' hstep t ht
          exact hend t (by rw [runSteps_cons_ok hstep, ht])
        have hcond : cond s i := by
          by_contra hfail
          obtain ⟨s', hstep, hs'⟩ := hbad s i hs hfail
          exact not_everyState_of_pending hpending hs' (hrest s' hstep) (htail s' hstep)
        refine ⟨hcond, fun s' hstep => ?_⟩
        exact (ih (hgood s i s' hs hcond hstep)).2 (hrest s' hstep) (htail s' hstep)

/-- The last state of a run is one of its states. -/
theorem EveryState.last {P : σ → Prop} {s s' : σ} {is : List ι} (h : EveryState step P s is)
    (hrun : runSteps step s is = .ok s') : P s' := by
  induction is generalizing s with
  | nil =>
      cases hrun
      exact h
  | cons i is ih =>
      rw [runSteps] at hrun
      cases hi : step s i with
      | error e =>
          rw [hi] at hrun
          cases hrun
      | ok t =>
          rw [hi] at hrun
          exact ih (h.2 t hi) hrun

/-- What every step keeps holds after every run. -/
theorem runSteps_keeps {Inv : σ → Prop} {F : ε → Prop}
    (hstep : ∀ s i, Inv s → Ends Inv F (step s i)) {s : σ} (hs : Inv s) (is : List ι) :
    Ends Inv F (runSteps step s is) :=
  runSteps_ends (fun s i h (_ : True) => hstep s i h) hs (alongRun_of_forall (fun _ _ _ => trivial) s)

/-- Steps that make a number smaller are no more than that number. -/
theorem runSteps_length_le {μ : σ → Nat} (hstep : ∀ s i s', step s i = .ok s' → μ s' < μ s)
    {s s' : σ} {is : List ι} (hrun : runSteps step s is = .ok s') : is.length + μ s' ≤ μ s := by
  induction is generalizing s with
  | nil =>
      cases hrun
      exact Nat.le_of_eq (Nat.zero_add _)
  | cons i is ih =>
      rw [runSteps] at hrun
      cases hi : step s i with
      | error e =>
          rw [hi] at hrun
          cases hrun
      | ok t =>
          rw [hi] at hrun
          have hlt := hstep s i t hi
          have hle := ih hrun
          rw [List.length_cons]
          omega

/-- A run whose steps follow the steps of an abstract state follows its whole run. -/
theorem runSteps_refines {Rel : σ → τ → Prop} {next : τ → ι → τ} {P : ι → Prop}
    (hstep : ∀ s a i, P i → Rel s a → ∃ s', step s i = .ok s' ∧ Rel s' (next a i)) {s : σ} {a : τ}
    {is : List ι} (his : ∀ i ∈ is, P i) (hs : Rel s a) :
    ∃ s', runSteps step s is = .ok s' ∧ Rel s' (is.foldl next a) := by
  induction is generalizing s a with
  | nil => exact ⟨s, rfl, hs⟩
  | cons i is ih =>
      obtain ⟨s₁, hfirst, hs₁⟩ := hstep s a i (his i (List.mem_cons_self ..)) hs
      obtain ⟨s', hrest, hs'⟩ := ih (fun j hj => his j (List.mem_cons_of_mem _ hj)) hs₁
      rw [runSteps_cons_ok hfirst]
      exact ⟨s', hrest, hs'⟩

/-- A loop that counts up: an invariant with the number of turns made. -/
theorem runSteps_range {step : σ → Nat → Except ε σ} {Inv : Nat → σ → Prop} (n : Nat)
    (hstep : ∀ i s, i < n → Inv i s → ∃ s', step s i = .ok s' ∧ Inv (i + 1) s') {s : σ}
    (hs : Inv 0 s) : ∃ s', runSteps step s (List.range n) = .ok s' ∧ Inv n s' := by
  induction n with
  | zero => exact ⟨s, rfl, hs⟩
  | succ n ih =>
      obtain ⟨s', hrun, hs'⟩ := ih fun i s hi => hstep i s (Nat.lt_succ_of_lt hi)
      obtain ⟨s'', hlast, hs''⟩ := hstep n s' (Nat.lt_succ_self n) hs'
      refine ⟨s'', ?_, hs''⟩
      rw [List.range_succ, runSteps_append_ok hrun, runSteps_cons_ok hlast]
      rfl

/-- A run with an input on which every step stops does not come to its end. -/
theorem runSteps_stops {Inv : σ → Prop} (hkeep : ∀ s i s', Inv s → step s i = .ok s' → Inv s')
    {j : ι} (hstop : ∀ s, Inv s → ∃ e, step s j = .error e) {is : List ι} (hj : j ∈ is) {s : σ}
    (hs : Inv s) : ∃ e, runSteps step s is = .error e := by
  induction is generalizing s with
  | nil => cases hj
  | cons i is ih =>
      rw [runSteps]
      rcases List.mem_cons.mp hj with rfl | hj
      · obtain ⟨e, he⟩ := hstop s hs
        exact ⟨e, by rw [he]⟩
      · cases hstep : step s i with
        | error e => exact ⟨e, rfl⟩
        | ok s' => exact ih hj (hkeep s i s' hs hstep)

/-- Steps of two machines that look the same through `view` lead to runs that do. -/
theorem runSteps_map {step' : σ → ι → Except ε σ} {view : σ → τ}
    (hstep : ∀ s s' i, view s = view s' → (step s i).map view = (step' s' i).map view) {s s' : σ}
    (hs : view s = view s') (is : List ι) :
    (runSteps step s is).map view = (runSteps step' s' is).map view := by
  induction is generalizing s s' with
  | nil => exact congrArg Except.ok hs
  | cons i is ih =>
      rw [runSteps, runSteps]
      rcases map_eq_map_cases (hstep s s' i hs) with ⟨e, h, h'⟩ | ⟨t, t', h, h', ht⟩
      · rw [h, h']
      · rw [h, h']
        exact ih ht

/-- A machine that is seen through `view` as another one makes the same runs. -/
theorem runSteps_view {step' : τ → ι → Except ε τ} {view : σ → τ}
    (hstep : ∀ s i, (step s i).map view = step' (view s) i) (s : σ) (is : List ι) :
    (runSteps step s is).map view = runSteps step' (view s) is := by
  induction is generalizing s with
  | nil => rfl
  | cons i is ih =>
      rw [runSteps, runSteps, ← hstep s i]
      cases step s i with
      | error e => rfl
      | ok s' => exact ih s'

end Runs

end LinuxCodeDemos.Lib

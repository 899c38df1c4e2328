/-
  LinuxCodeDemos.Lib.While

  Loops that need not end.

  `whileLoop` makes at most `fuel` turns; `none` means that it was still going.
  `whileLoop_ends` is the rule for a loop that does end: an invariant, and a
  measure that every turn makes smaller.  `whileLoop_stops` is the rule for one that
  comes to a fault, `whileLoop_endless` for one that never leaves its invariant.
  `whileLoop_view` relates a loop to one with less state.  `mapM_eq_map` is the rule for a loop
  over a list that collects one value a turn, and `forBy_ends` for a `for` loop
  over an `int` whose body does not look at it.
-/

import LinuxCodeDemos.Lib.Memory
import LinuxCodeDemos.Lib.Run

namespace LinuxCodeDemos.Lib

variable {σ ε : Type}

/-- `while (cond) body`. -/
def whileLoop (cond : σ → Bool) (body : σ → Except ε σ) : Nat → σ → Except ε (Option σ)
  | 0, _ => .ok none
  | fuel + 1, s =>
      if cond s then
        match body s with
        | .error e => .error e
        | .ok s' => whileLoop cond body fuel s'
      else .ok (some s)

/-- A loop whose turns keep `Inv` and make `measure` smaller ends in `Inv` with its
    condition false. -/
theorem whileLoop_ends {cond : σ → Bool} {body : σ → Except ε σ} {Inv : σ → Prop}
    (measure : σ → Nat)
    (hbody : ∀ s, Inv s → cond s = true →
      ∃ s', body s = .ok s' ∧ Inv s' ∧ measure s' < measure s) :
    ∀ {fuel : Nat} {s : σ}, Inv s → measure s < fuel →
      ∃ s', whileLoop cond body fuel s = .ok (some s') ∧ Inv s' ∧ cond s' = false := by
  intro fuel
  induction fuel with
  | zero =>
      intro s _ hfuel
      exact absurd hfuel (Nat.not_lt_zero _)
  | succ fuel ih =>
      intro s hs hfuel
      rw [whileLoop]
      cases hcond : cond s with
      | false => exact ⟨s, rfl, hs, hcond⟩
      | true =>
          obtain ⟨s₁, hstep, hs₁, hless⟩ := hbody s hs hcond
          obtain ⟨s', hrun, hs', hend⟩ := ih hs₁ (by omega)
          refine ⟨s', ?_, hs', hend⟩
          rw [if_pos rfl, hstep]
          exact hrun

/-- A loop that makes `measure` smaller until a turn fails, and is not left before. -/
theorem whileLoop_stops {cond : σ → Bool} {body : σ → Except ε σ} {Inv : σ → Prop}
    (measure : σ → Nat)
    (hbody : ∀ s, Inv s → cond s = true ∧
      ((∃ e, body s = .error e) ∨ ∃ s', body s = .ok s' ∧ Inv s' ∧ measure s' < measure s)) :
    ∀ {fuel : Nat} {s : σ}, Inv s → measure s < fuel →
      ∃ e, whileLoop cond body fuel s = .error e := by
  intro fuel
  induction fuel with
  | zero =>
      intro s _ hfuel
      exact absurd hfuel (Nat.not_lt_zero _)
  | succ fuel ih =>
      intro s hs hfuel
      obtain ⟨hcond, ⟨e, he⟩ | ⟨s', hstep, hs', hless⟩⟩ := hbody s hs
      · rw [whileLoop, if_pos hcond, he]
        exact ⟨e, rfl⟩
      · rw [whileLoop, if_pos hcond, hstep]
        exact ih hs' (by omega)

/-- A loop that stays in `Inv`, where its condition holds. -/
theorem whileLoop_endless {cond : σ → Bool} {body : σ → Except ε σ} {Inv : σ → Prop}
    (hbody : ∀ s, Inv s → cond s = true ∧ ∃ s', body s = .ok s' ∧ Inv s') :
    ∀ (fuel : Nat) {s : σ}, Inv s → whileLoop cond body fuel s = .ok none := by
  intro fuel
  induction fuel with
  | zero => exact fun _ => rfl
  | succ fuel ih =>
      intro s hs
      obtain ⟨hcond, s', hstep, hs'⟩ := hbody s hs
      rw [whileLoop, if_pos hcond, hstep]
      exact ih hs'

/-- What every turn keeps holds at the end of the loop. -/
theorem whileLoop_keeps {cond : σ → Bool} {body : σ → Except ε σ} {Inv : σ → Prop}
    (hkeep : ∀ s s', Inv s → cond s = true → body s = .ok s' → Inv s') :
    ∀ {fuel : Nat} {s s' : σ}, Inv s → whileLoop cond body fuel s = .ok (some s') → Inv s' := by
  intro fuel
  induction fuel with
  | zero =>
      intro s s' _ h
      cases h
  | succ fuel ih =>
      intro s s' hs h
      rw [whileLoop] at h
      cases htest : cond s with
      | false =>
          rw [htest] at h
          cases h
          exact hs
      | true =>
          rw [htest, if_pos rfl] at h
          cases hstep : body s with
          | error e =>
              rw [hstep] at h
              cases h
          | ok t =>
              rw [hstep] at h
              exact ih (hkeep s t hs htest hstep) h

/-- More fuel changes nothing for a loop that has come to its end or to a fault. -/
theorem whileLoop_add {cond : σ → Bool} {body : σ → Except ε σ} (k : Nat) :
    ∀ {fuel : Nat} {s : σ}, whileLoop cond body fuel s ≠ .ok none →
      whileLoop cond body (fuel + k) s = whileLoop cond body fuel s := by
  intro fuel
  induction fuel with
  | zero => exact fun h => absurd rfl h
  | succ fuel ih =>
      intro s h
      rw [Nat.add_right_comm, whileLoop, whileLoop]
      rw [whileLoop] at h
      cases htest : cond s with
      | false => rfl
      | true =>
          rw [htest, if_pos rfl] at h
          rw [if_pos rfl, if_pos rfl]
          cases hstep : body s with
          | error e => rfl
          | ok s' =>
              rw [hstep] at h
              exact ih h

/-- A loop whose turns look through `view` like those of another one, in states with `Inv`. -/
theorem whileLoop_view {τ : Type} {view : σ → τ} {cond : σ → Bool} {body : σ → Except ε σ}
    {cond' : τ → Bool} {body' : τ → Except ε τ} {Inv : σ → Prop}
    (hcond : ∀ s, cond s = cond' (view s))
    (hbody : ∀ s, Inv s → cond s = true → (body s).map view = body' (view s))
    (hkeep : ∀ s s', Inv s → cond s = true → body s = .ok s' → Inv s') :
    ∀ (fuel : Nat) {s : σ}, Inv s →
      (whileLoop cond body fuel s).map (Option.map view) = whileLoop cond' body' fuel (view s) := by
  intro fuel
  induction fuel with
  | zero => exact fun _ => rfl
  | succ fuel ih =>
      intro s hs
      rw [whileLoop, whileLoop, ← hcond s]
      cases htest : cond s with
      | false => rfl
      | true =>
          rw [if_pos rfl, if_pos rfl, ← hbody s hs htest]
          cases hstep : body s with
          | error e => rfl
          | ok s' => exact ih (hkeep s s' hs htest hstep)

/-- A `mapM` whose body never fails is a `map`. -/
theorem mapM_eq_map {α β : Type} {f : α → Except ε β} {g : α → β} (l : List α)
    (h : ∀ a ∈ l, f a = .ok (g a)) : l.mapM f = .ok (l.map g) := by
  induction l with
  | nil => rfl
  | cons a l ih =>
      rw [List.mapM_cons, h a (List.mem_cons_self ..),
        ih (fun b hb => h b (List.mem_cons_of_mem _ hb))]
      rfl

/-- `for (i = 0; i < n; i += stride) body`, with an `int i` that the body does not look at. -/
def forBy (stride n : Nat) (body : σ → Except Fault σ) (s : σ) : Except Fault σ :=
  runSteps (fun s turn => do
    let s ← body s
    let _ ← checkInt (stride * turn + stride : Nat)
    .ok s) s (List.range ((n + stride - 1) / stride))

/-- A `for` loop that ends at a multiple of its step, with the number of turns made. -/
theorem forBy_ends {Inv : Nat → σ → Prop} {stride m : Nat} {body : σ → Except Fault σ}
    (hpos : 0 < stride) (hmax : stride * m ≤ intMax)
    (hbody : ∀ k s, k < m → Inv k s → ∃ s', body s = .ok s' ∧ Inv (k + 1) s') {s : σ}
    (hs : Inv 0 s) : ∃ s', forBy stride (stride * m) body s = .ok s' ∧ Inv m s' := by
  have hturns : (stride * m + stride - 1) / stride = m := by
    rw [Nat.add_sub_assoc hpos, Nat.mul_add_div hpos, Nat.div_eq_of_lt (by omega), Nat.add_zero]
  rw [forBy, hturns]
  refine runSteps_range m (fun k s hk hInv => ?_) hs
  obtain ⟨s', hstep, hs'⟩ := hbody k s hk hInv
  refine ⟨s', ?_, hs'⟩
  have hle : stride * k + stride ≤ intMax := by
    rw [← Nat.mul_succ]
    exact Nat.le_trans (Nat.mul_le_mul_left stride hk) hmax
  rw [hstep]
  show (checkInt _ >>= fun _ => .ok s') = .ok s'
  rw [checkInt_of_le (by omega) (by exact_mod_cast hle)]
  rfl

/-- What every turn keeps holds behind the loop. -/
theorem forBy_keeps {Inv : σ → Prop} {stride n : Nat} {body : σ → Except Fault σ}
    (hbody : ∀ s, Inv s → Ends Inv (fun _ => True) (body s)) {s : σ} (hs : Inv s) :
    Ends Inv (fun _ => True) (forBy stride n body s) := by
  refine runSteps_keeps (fun s turn hInv => ?_) hs _
  apply (hbody s hInv).bind
  intro s' hs'
  apply Ends.bind_any
  intro _
  exact hs'

end LinuxCodeDemos.Lib

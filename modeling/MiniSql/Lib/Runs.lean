import Mathlib.Data.Nat.Init
import Mathlib.Tactic.TypeStar

/-!
# Runs of a state machine

A machine takes one step per event; a step that is not possible has no result. What one step
keeps, a whole run keeps, also where a step keeps it only under a condition on the event and on
the state before the step.

## Main results

* `Runs.invariant` — the induction along a run.
* `Runs.exists_run_to` — a machine that is never stuck before its goal gets there.
-/

namespace Runs

variable {State Event : Type*}

/-- The state after a list of events, one step for each. -/
def run (step : State → Event → Option State) : State → List Event → Option State
  | s, [] => some s
  | s, e :: es => (step s e).bind fun s' => run step s' es

/-- Every step of the run meets the condition. -/
def Meets (step : State → Event → Option State) (cond : State → Event → Prop) :
    State → List Event → Prop
  | _, [] => True
  | s, e :: es => cond s e ∧
    match step s e with
    | some s' => Meets step cond s' es
    | none => True

variable {step : State → Event → Option State} {cond : State → Event → Prop}

instance decidableMeets [∀ s e, Decidable (cond s e)] :
    ∀ (s : State) (es : List Event), Decidable (Meets step cond s es)
  | _, [] => isTrue trivial
  | s, e :: es =>
    have : Decidable (match step s e with | some s' => Meets step cond s' es | none => True) :=
      match step s e with
      | some s' => decidableMeets s' es
      | none => isTrue trivial
    inferInstanceAs (Decidable (_ ∧ _))

theorem run_cons {s s'' : State} {e : Event} {es : List Event} :
    run step s (e :: es) = some s'' ↔ ∃ s', step s e = some s' ∧ run step s' es = some s'' := by
  rw [run, Option.bind_eq_some_iff]

theorem run_append {s s'' : State} {es fs : List Event} :
    run step s (es ++ fs) = some s'' ↔
      ∃ s', run step s es = some s' ∧ run step s' fs = some s'' := by
  induction es generalizing s with
  | nil => simp [run]
  | cons e es ih =>
    simp only [List.cons_append, run_cons, ih]
    constructor
    · rintro ⟨t, hstep, s', hes, hfs⟩
      exact ⟨s', ⟨t, hstep, hes⟩, hfs⟩
    · rintro ⟨s', ⟨t, hstep, hes⟩, hfs⟩
      exact ⟨t, hstep, s', hes, hfs⟩

/-- A weaker condition is met as well. -/
theorem Meets.imp {cond' : State → Event → Prop} {es : List Event}
    (himp : ∀ s, ∀ e ∈ es, cond s e → cond' s e) {s : State} (h : Meets step cond s es) :
    Meets step cond' s es := by
  induction es generalizing s with
  | nil => trivial
  | cons e es ih =>
    obtain ⟨hcond, hrest⟩ := h
    refine ⟨himp s e (by simp) hcond, ?_⟩
    cases hstep : step s e with
    | none => trivial
    | some s' =>
      rw [hstep] at hrest
      exact ih (fun s e he => himp s e (by simp [he])) hrest

/-- A run meets the condition where its first step does and what follows does. -/
theorem meets_cons {s : State} {e : Event} {es : List Event} :
    Meets step cond s (e :: es) ↔
      cond s e ∧ ∀ s', step s e = some s' → Meets step cond s' es := by
  simp only [Meets]
  cases step s e <;> simp

theorem meets_append {es fs : List Event} {s : State} :
    Meets step cond s (es ++ fs) ↔
      Meets step cond s es ∧ ∀ s', run step s es = some s' → Meets step cond s' fs := by
  induction es generalizing s with
  | nil => simp [Meets, run]
  | cons e es ih =>
    simp only [List.cons_append, Meets, run_cons]
    cases step s e with
    | none => simp
    | some s' => simp [ih, and_assoc]

/-- **What every step that meets the condition keeps holds at the end of the run.** -/
theorem invariant {Inv : State → Prop}
    (hkeep : ∀ s e s', Inv s → cond s e → step s e = some s' → Inv s') {es : List Event} :
    ∀ {s s' : State}, Inv s → Meets step cond s es → run step s es = some s' → Inv s' := by
  induction es with
  | nil =>
    intro s s' hinv _ hrun
    obtain rfl : s = s' := by simpa [run] using hrun
    exact hinv
  | cons e es ih =>
    intro s s'' hinv hmeets hrun
    obtain ⟨s', hstep, hrest⟩ := run_cons.mp hrun
    obtain ⟨hcond, hmeets⟩ := hmeets
    rw [hstep] at hmeets
    exact ih (hkeep s e s' hinv hcond hstep) hmeets hrest

/-- What every step keeps. -/
theorem preserves {Inv : State → Prop} (hkeep : ∀ s e s', Inv s → step s e = some s' → Inv s')
    {es : List Event} {s s' : State} (hinv : Inv s) (hrun : run step s es = some s') : Inv s' := by
  induction es generalizing s with
  | nil =>
    obtain rfl : s = s' := by simpa [run] using hrun
    exact hinv
  | cons e es ih =>
    obtain ⟨t, hstep, hrest⟩ := run_cons.mp hrun
    exact ih (hkeep s e t hinv hstep) hrest

/-- What each event of a run meets that is met by the events alone. -/
theorem Meets.forall_mem {P : Event → Prop} (himp : ∀ s e, cond s e → P e) {es : List Event} :
    ∀ {s s' : State}, Meets step cond s es → run step s es = some s' → ∀ e ∈ es, P e := by
  induction es with
  | nil => simp
  | cons e es ih =>
    intro s s'' hmeets hrun f hf
    obtain ⟨s', hstep, hrest⟩ := run_cons.mp hrun
    obtain ⟨hcond, hmeets⟩ := meets_cons.mp hmeets
    rcases List.mem_cons.mp hf with rfl | hf
    · exact himp s f hcond
    · exact ih (hmeets s' hstep) hrest f hf

/-- **Where a state short of the goal always has a step that brings it nearer, some run reaches the
goal, of no more steps than the distance.** -/
theorem exists_run_to {Inv goal : State → Prop} (distance : State → ℕ)
    (hstep : ∀ s, Inv s → ¬ goal s → ∃ e s', cond s e ∧ step s e = some s' ∧ Inv s' ∧
      distance s' < distance s) {s : State} (hinv : Inv s) :
    ∃ es s', Meets step cond s es ∧ es.length ≤ distance s ∧ run step s es = some s' ∧
      Inv s' ∧ goal s' := by
  induction hd : distance s using Nat.strongRecOn generalizing s with
  | ind d ih =>
    by_cases hgoal : goal s
    · exact ⟨[], s, trivial, by simp, rfl, hinv, hgoal⟩
    · obtain ⟨e, s', hcond, hs', hinv', hlt⟩ := hstep s hinv hgoal
      obtain ⟨es, s'', hes, hlength, hrun, hinv'', hgoal''⟩ :=
        ih (distance s') (hd ▸ hlt) hinv' rfl
      refine ⟨e :: es, s'', ?_, ?_, run_cons.mpr ⟨s', hs', hrun⟩, hinv'', hgoal''⟩
      · rw [meets_cons]
        refine ⟨hcond, fun t ht => ?_⟩
        obtain rfl := Option.some.inj (hs'.symm.trans ht)
        exact hes
      · rw [List.length_cons]
        omega

end Runs

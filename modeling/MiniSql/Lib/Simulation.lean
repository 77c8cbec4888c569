import Mathlib.Data.List.Forall2
import Mathlib.Logic.Function.Basic

/-!
# Machines that answer, and one that stands for another

A machine answers each event and goes on to a next state. One machine simulates another when
related states answer alike and lead to related states; then they answer alike along every run. A
machine over a family of cells, each event of which looks at one cell only, is as many machines
side by side.

## Main definitions

* `Machine`, `Machine.run`.
* `Machine.batches` — the machine that takes several events at a time.
* `Machine.keyed` — the machine over a family of cells.
* `Simulation` — one machine stands for another.

## Main results

* `Simulation.run` — the induction along a run.
* `Machine.run_filter` — a relation that some events of the first machine cannot break.
-/

/-- A machine: what it answers to an event, and its next state. -/
abbrev Machine (State Event Answer : Type*) := State → Event → Answer × State

namespace Machine

variable {State Event Answer : Type*}

/-- The answers to a list of events, and the state behind them. -/
def run (m : Machine State Event Answer) : State → List Event → List Answer × State
  | s, [] => ([], s)
  | s, e :: es => ((m s e).1 :: (m.run (m s e).2 es).1, (m.run (m s e).2 es).2)

variable {m : Machine State Event Answer}

@[simp] theorem run_nil (s : State) : m.run s [] = ([], s) := rfl

@[simp] theorem run_cons (s : State) (e : Event) (es : List Event) :
    m.run s (e :: es) = ((m s e).1 :: (m.run (m s e).2 es).1, (m.run (m s e).2 es).2) := rfl

theorem run_append (s : State) (es fs : List Event) :
    m.run s (es ++ fs) =
      ((m.run s es).1 ++ (m.run (m.run s es).2 fs).1, (m.run (m.run s es).2 fs).2) := by
  induction es generalizing s with
  | nil => rfl
  | cons e es ih => simp [ih]

theorem length_run (s : State) (es : List Event) : (m.run s es).1.length = es.length := by
  induction es generalizing s with
  | nil => rfl
  | cons e es ih => simp [ih]

/-- The machine that takes its events several at a time. -/
def batches (m : Machine State Event Answer) : Machine State (List Event) (List Answer) := m.run

theorem run_flatten (s : State) (ess : List (List Event)) :
    m.run s ess.flatten = ((m.batches.run s ess).1.flatten, (m.batches.run s ess).2) := by
  induction ess generalizing s with
  | nil => rfl
  | cons es ess ih =>
    rw [List.flatten_cons, run_append, ih]
    rfl

/-- **Two machines stay related when the second is shown only some of the events**, where the
others do not make the first leave the relation. -/
theorem run_filter {State' Answer' : Type*} {m' : Machine State' Event Answer'}
    {rel : State → State' → Prop} {p : Event → Bool} {es : List Event}
    (hboth : ∀ s s', ∀ e ∈ es, p e = true → rel s s' → rel (m s e).2 (m' s' e).2)
    (hskip : ∀ s s', ∀ e ∈ es, p e = false → rel s s' → rel (m s e).2 s')
    {s : State} {s' : State'} (h : rel s s') : rel (m.run s es).2 (m'.run s' (es.filter p)).2 := by
  induction es generalizing s s' with
  | nil => exact h
  | cons e es ih =>
    have hrest : ∀ {s s'}, rel s s' → rel (m.run s es).2 (m'.run s' (es.filter p)).2 :=
      ih (fun s s' f hf => hboth s s' f (List.mem_cons_of_mem _ hf))
        fun s s' f hf => hskip s s' f (List.mem_cons_of_mem _ hf)
    cases hp : p e with
    | true =>
      rw [List.filter_cons_of_pos hp]
      exact hrest (hboth s s' e (List.mem_cons_self ..) hp h)
    | false =>
      rw [List.filter_cons_of_neg (by simp [hp])]
      exact hrest (hskip s s' e (List.mem_cons_self ..) hp h)

/-! ## A family of cells -/

section Keyed

variable {Key Cell : Type*} [DecidableEq Key] (m : Machine Cell Event Answer) (key : Event → Key)

/-- The machine over a family of cells: an event looks at the cell of its key, and at no other. -/
def keyed : Machine (Key → Cell) Event Answer :=
  fun cells e => ((m (cells (key e)) e).1, Function.update cells (key e) (m (cells (key e)) e).2)

@[simp] theorem keyed_self (cells : Key → Cell) (e : Event) :
    (m.keyed key cells e).2 (key e) = (m (cells (key e)) e).2 := Function.update_self ..

theorem keyed_of_ne (cells : Key → Cell) {e : Event} {k : Key} (h : k ≠ key e) :
    (m.keyed key cells e).2 k = cells k := Function.update_of_ne h ..

end Keyed

end Machine

/-- One machine stands for another: to an event of the first there is one of the second that
related states answer alike, going on to related states. -/
structure Simulation {C A E F O P : Type*} (concrete : Machine C E O) (abstract : Machine A F P)
    (rel : C → A → Prop) (ok : E → Prop) (stands : E → F → Prop) (agree : E → O → P → Prop) :
    Prop where
  step : ∀ c a e, rel c a → ok e → ∃ f, stands e f ∧
    agree e (concrete c e).1 (abstract a f).1 ∧ rel (concrete c e).2 (abstract a f).2

/-- **The two machines answer alike along every run.** -/
theorem Simulation.run {C A E F O P : Type*} {concrete : Machine C E O} {abstract : Machine A F P}
    {rel : C → A → Prop} {ok : E → Prop} {stands : E → F → Prop} {agree : E → O → P → Prop}
    (h : Simulation concrete abstract rel ok stands agree) {es : List E} (hok : ∀ e ∈ es, ok e)
    {c : C} {a : A} (hrel : rel c a) : ∃ fs, List.Forall₂ stands es fs ∧
      List.Forall₂ (fun eo p => agree eo.1 eo.2 p) (es.zip (concrete.run c es).1)
        (abstract.run a fs).1 ∧ rel (concrete.run c es).2 (abstract.run a fs).2 := by
  induction es generalizing c a with
  | nil => exact ⟨[], .nil, .nil, hrel⟩
  | cons e es ih =>
    obtain ⟨f, hstands, hagree, hrel'⟩ := h.step c a e hrel (hok e (List.mem_cons_self ..))
    obtain ⟨fs, hfs, hanswers, hend⟩ := ih (fun e he => hok e (List.mem_cons_of_mem _ he)) hrel'
    exact ⟨f :: fs, .cons hstands hfs, .cons hagree hanswers, hend⟩

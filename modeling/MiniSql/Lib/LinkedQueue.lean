import Mathlib.Logic.Function.Basic
import Mathlib.Data.List.Nodup

/-!
# A queue of linked cells

Cells in memory, each with a value and the address of the next one, and the addresses of the first
and of the last cell. A value is added behind the last cell and taken from the first one.

## Main definitions

* `LinkedQueue.enqueue`, `LinkedQueue.dequeue`.
* `LinkedQueue.Holds` — the values from the first cell on; the last cell is where the queue says.
* `LinkedQueue.Bounded` — the cells are below some address.

## Main results

* `LinkedQueue.Holds.enqueue`, `LinkedQueue.Holds.dequeue` — what the operations do to the values.
* `LinkedQueue.Holds.unique` — a queue holds one list of values.
-/

/-- A cell. -/
structure LinkedCell (α : Type*) where
  value : α
  next : Option ℕ

/-- The memory, and the addresses of the first and of the last cell. -/
structure LinkedQueue (α : Type*) where
  cells : ℕ → Option (LinkedCell α)
  head : Option ℕ
  tail : Option ℕ

namespace LinkedQueue

variable {α : Type*}

/-- A queue without cells. -/
def empty : LinkedQueue α := ⟨fun _ => none, none, none⟩

/-- The cell at an address leads to another one. -/
def link (cells : ℕ → Option (LinkedCell α)) (addr next : ℕ) : ℕ → Option (LinkedCell α) :=
  Function.update cells addr ((cells addr).map fun cell => { cell with next := some next })

/-- A new cell behind the last one. -/
def enqueue (q : LinkedQueue α) (addr : ℕ) (value : α) : LinkedQueue α :=
  let cells := Function.update q.cells addr (some ⟨value, none⟩)
  match q.tail with
  | some last => ⟨link cells last addr, q.head, some addr⟩
  | none => ⟨cells, some addr, some addr⟩

/-- The value of the first cell, and the queue behind it. -/
def dequeue (q : LinkedQueue α) : Option (α × LinkedQueue α) :=
  match q.head with
  | none => none
  | some addr => (q.cells addr).map fun cell =>
    (cell.value, ⟨Function.update q.cells addr none, cell.next, if cell.next = none then none else q.tail⟩)

/-- The cells from an address on. -/
def Chain (cells : ℕ → Option (LinkedCell α)) : Option ℕ → List (ℕ × α) → Prop
  | start, [] => start = none
  | start, (addr, value) :: rest =>
    start = some addr ∧ ∃ next, cells addr = some ⟨value, next⟩ ∧ Chain cells next rest

/-- The values of the queue, first in first out. -/
def Holds (q : LinkedQueue α) (values : List α) : Prop :=
  ∃ chain : List (ℕ × α), Chain q.cells q.head chain ∧ (chain.map Prod.fst).Nodup ∧
    q.tail = chain.getLast?.map Prod.fst ∧ chain.map Prod.snd = values

/-! ## Chains -/

variable {cells cells' : ℕ → Option (LinkedCell α)} {start : Option ℕ} {chain : List (ℕ × α)}

/-- A chain does not depend on other cells. -/
theorem Chain.congr (h : Chain cells start chain)
    (hsame : ∀ addr ∈ chain.map Prod.fst, cells' addr = cells addr) : Chain cells' start chain := by
  induction chain generalizing start with
  | nil => exact h
  | cons p rest ih =>
    obtain ⟨hstart, next, hcell, hrest⟩ := h
    refine ⟨hstart, next, ?_, ih hrest fun addr haddr => hsame addr (by simp [haddr])⟩
    rw [hsame p.1 (by simp), hcell]

theorem Chain.mem_cells (h : Chain cells start chain) {addr : ℕ} (haddr : addr ∈ chain.map Prod.fst) :
    cells addr ≠ none := by
  induction chain generalizing start with
  | nil => exact absurd haddr (by simp)
  | cons p rest ih =>
    obtain ⟨-, next, hcell, hrest⟩ := h
    rcases List.mem_cons.mp haddr with rfl | hin
    · rw [hcell]
      simp
    · exact ih hrest hin

/-- The cells determine the chain. -/
theorem Chain.unique {chain' : List (ℕ × α)} (h : Chain cells start chain)
    (h' : Chain cells start chain') : chain = chain' := by
  induction chain generalizing start chain' with
  | nil =>
    cases chain' with
    | nil => rfl
    | cons p rest =>
      obtain ⟨hstart, -⟩ := h'
      exact absurd (h.symm.trans hstart) (by simp)
  | cons p rest ih =>
    obtain ⟨hstart, next, hcell, hrest⟩ := h
    cases chain' with
    | nil => exact absurd (hstart.symm.trans h') (by simp)
    | cons p' rest' =>
      obtain ⟨hstart', next', hcell', hrest'⟩ := h'
      have haddr : p.1 = p'.1 := Option.some.inj (hstart.symm.trans hstart')
      rw [haddr] at hcell
      obtain ⟨hvalue, hnext⟩ := LinkedCell.mk.inj (Option.some.inj (hcell.symm.trans hcell'))
      rw [ih hrest (hnext ▸ hrest')]
      exact congrArg (· :: rest') (Prod.ext haddr hvalue)

/-- The last cell of a chain is made to lead to a new one. -/
theorem Chain.append {last addr : ℕ} {value : α} (h : Chain cells start chain)
    (hnodup : (chain.map Prod.fst).Nodup) (hlast : chain.getLast?.map Prod.fst = some last)
    (hnew : cells addr = some ⟨value, none⟩) (hfresh : addr ∉ chain.map Prod.fst) :
    Chain (link cells last addr) start (chain ++ [(addr, value)]) := by
  induction chain generalizing start with
  | nil => exact absurd hlast (by simp)
  | cons p rest ih =>
    obtain ⟨hstart, next, hcell, hrest⟩ := h
    obtain ⟨hp, hrestNodup⟩ := List.nodup_cons.mp hnodup
    cases rest with
    | nil =>
      obtain rfl : p.1 = last := by simpa using hlast
      have hne : addr ≠ p.1 := fun heq => hfresh (by simp [heq])
      refine ⟨hstart, some addr, ?_, rfl, none, ?_, rfl⟩
      · rw [link, Function.update_self, hcell]
        rfl
      · rw [link, Function.update_of_ne hne, hnew]
    | cons p' rest' =>
      have hlast' : (p' :: rest').getLast?.map Prod.fst = some last := by
        rwa [List.getLast?_cons_cons] at hlast
      have hmem : last ∈ (p' :: rest').map Prod.fst := by
        obtain ⟨e, he, rfl⟩ := Option.map_eq_some_iff.mp hlast'
        exact List.mem_map_of_mem (List.mem_of_getLast? he)
      have hne : p.1 ≠ last := fun heq => hp (heq ▸ hmem)
      have hfresh' : addr ∉ (p' :: rest').map Prod.fst :=
        fun hin => hfresh (List.mem_cons_of_mem _ hin)
      refine ⟨hstart, next, ?_, ih hrest hrestNodup hlast' hfresh'⟩
      rw [link, Function.update_of_ne hne, hcell]

/-! ## The operations -/

variable {q : LinkedQueue α} {values : List α}

theorem holds_empty : (empty : LinkedQueue α).Holds [] := ⟨[], rfl, by simp, rfl, rfl⟩

theorem Holds.unique {values' : List α} (h : q.Holds values) (h' : q.Holds values') :
    values = values' := by
  obtain ⟨chain, hchain, -, -, rfl⟩ := h
  obtain ⟨chain', hchain', -, -, rfl⟩ := h'
  rw [hchain.unique hchain']

/-- No first cell, no values. -/
theorem Holds.eq_nil_iff (h : q.Holds values) : values = [] ↔ q.head = none := by
  obtain ⟨chain, hchain, -, -, rfl⟩ := h
  cases chain with
  | nil => exact iff_of_true rfl hchain
  | cons p rest => exact iff_of_false (by simp) (by rw [hchain.1]; simp)

/-- There is a last cell if there is a first one. -/
theorem Holds.tail_eq_none_iff (h : q.Holds values) : q.tail = none ↔ values = [] := by
  obtain ⟨chain, -, -, htail, rfl⟩ := h
  rw [htail, Option.map_eq_none_iff, List.getLast?_eq_none_iff, List.map_eq_nil_iff]

/-- **A value is added at the end.** -/
theorem Holds.enqueue (h : q.Holds values) {addr : ℕ} (hfree : q.cells addr = none) (value : α) :
    (q.enqueue addr value).Holds (values ++ [value]) := by
  obtain ⟨chain, hchain, hnodup, htail, rfl⟩ := h
  have hfresh : addr ∉ chain.map Prod.fst := fun hin => hchain.mem_cells hin hfree
  have hsame : Chain (Function.update q.cells addr (some ⟨value, none⟩)) q.head chain := by
    refine hchain.congr fun a ha => Function.update_of_ne ?_ _ _
    exact fun heq => hfresh (heq ▸ ha)
  have hnew : Function.update q.cells addr (some ⟨value, none⟩) addr = some ⟨value, none⟩ :=
    Function.update_self ..
  have hnodup' : ((chain ++ [(addr, value)]).map Prod.fst).Nodup := by
    rw [List.map_append, List.nodup_append]
    refine ⟨hnodup, by simp, fun a ha b hb heq => hfresh ?_⟩
    have hb' : b = addr := by simpa using hb
    rwa [← hb', ← heq]
  refine ⟨chain ++ [(addr, value)], ?_, hnodup', ?_, by simp⟩
  · unfold LinkedQueue.enqueue
    cases htail' : q.tail with
    | some last =>
      rw [htail'] at htail
      exact hsame.append hnodup htail.symm hnew hfresh
    | none =>
      rw [htail'] at htail
      have hnil : chain = [] := by simpa using htail.symm
      rw [hnil]
      exact ⟨rfl, none, hnew, rfl⟩
  · unfold LinkedQueue.enqueue
    cases q.tail <;> simp

/-- **A value is taken from the front.** -/
theorem Holds.dequeue {value : α} (h : q.Holds (value :: values)) :
    ∃ q', q.dequeue = some (value, q') ∧ q'.Holds values := by
  obtain ⟨chain, hchain, hnodup, htail, hvalues⟩ := h
  cases chain with
  | nil => exact absurd hvalues (by simp)
  | cons p rest =>
    obtain ⟨hstart, next, hcell, hrest⟩ := hchain
    obtain ⟨rfl, rfl⟩ := List.cons.inj hvalues
    obtain ⟨hp, hrestNodup⟩ := List.nodup_cons.mp hnodup
    refine ⟨⟨Function.update q.cells p.1 none, next, if next = none then none else q.tail⟩, ?_, rest,
      ?_, hrestNodup, ?_, rfl⟩
    · rw [LinkedQueue.dequeue, hstart]
      dsimp only
      rw [hcell]
      rfl
    · refine hrest.congr fun a ha => Function.update_of_ne ?_ _ _
      exact fun heq => hp (heq ▸ ha)
    · cases rest with
      | nil =>
        have hnext : next = none := hrest
        rw [hnext]
        rfl
      | cons p' rest' =>
        rw [hrest.1, htail, List.getLast?_cons_cons]
        rfl

/-! ## Where there is room -/

/-- There are no cells from some address on. -/
def Bounded (q : LinkedQueue α) : Prop := ∃ n, ∀ addr, n ≤ addr → q.cells addr = none

theorem bounded_empty : (empty : LinkedQueue α).Bounded := ⟨0, fun _ _ => rfl⟩

theorem Bounded.enqueue (h : q.Bounded) (addr : ℕ) (value : α) : (q.enqueue addr value).Bounded := by
  obtain ⟨n, hfree⟩ := h
  refine ⟨max n (addr + 1), fun a ha => ?_⟩
  have hcell : Function.update q.cells addr (some ⟨value, none⟩) a = none := by
    rw [Function.update_of_ne (by omega)]
    exact hfree a (by omega)
  unfold LinkedQueue.enqueue
  cases q.tail with
  | none => exact hcell
  | some last =>
    dsimp only [link]
    by_cases hlast : a = last
    · subst hlast
      rw [Function.update_self, hcell]
      rfl
    · rw [Function.update_of_ne hlast, hcell]

theorem Bounded.dequeue (h : q.Bounded) {value : α} {q' : LinkedQueue α}
    (hq : q.dequeue = some (value, q')) : q'.Bounded := by
  obtain ⟨n, hfree⟩ := h
  unfold LinkedQueue.dequeue at hq
  cases hhead : q.head with
  | none => simp [hhead] at hq
  | some addr =>
    simp only [hhead] at hq
    obtain ⟨cell, -, hcell⟩ := Option.map_eq_some_iff.mp hq
    obtain ⟨-, rfl⟩ := Prod.mk.inj hcell
    refine ⟨n, fun a ha => ?_⟩
    by_cases haddr : a = addr
    · rw [haddr]
      exact Function.update_self ..
    · exact (Function.update_of_ne haddr ..).trans (hfree a ha)

end LinkedQueue

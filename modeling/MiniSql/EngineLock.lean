import Mathlib.Data.Set.Function
import Mathlib.Logic.Function.Basic
import MiniSql.Lib.Runs
import MiniSql.Lib.Rwlock
import MiniSql.Types

/-!
# The locks around a statement

`engine_lock.c` and the two functions of `engine.c` that use it. A thread runs statements one
after the other; each is one of the phases below, and the threads take their steps in any order.
A step of a thread that has to wait has no result.

## Main definitions

* `lockStep`, `unlockStep` — `lock_for_statement` and `unlock_statement`, step by step.
* `System`, `System.step` — the threads and their locks.
* `SameModes`, `SlotFound` — when the locks exclude what they should.

## Main results

* `exclusive_of_run` — two conflicting statements are never both inside.
* `overlap_of_modes` — two modes share no lock.
-/

namespace MiniSql
open CText

/-- `MAX_TABLES`. -/
def maxTables : ℕ := 64

/-- A statement as `lock_for_statement` sees it; the parser cuts the name of the table. -/
structure Statement where
  single : Bool
  type : QueryType
  table : CStr
  short : table.length ≤ 63

/-- `INSERT`, `UPDATE`, `DELETE` or `CREATE`. -/
def Statement.isWrite (s : Statement) : Bool :=
  match s.type with
  | .insert | .update | .delete | .create => true
  | .select | .unknown => false

variable {T : Type*} [DecidableEq T]

/-- The used slots of `s_tables`, in the order of registration. -/
abbrev Registry (T : Type*) := List (CStr × Rwlock T)

/-- The locks of `engine_lock.c`; `single` is the thread that holds the mutex. -/
structure Locks (T : Type*) where
  tables : Registry T
  catalog : Rwlock T
  single : Option T

/-- The state after `engine_lock_init`. -/
def Locks.init : Locks T := ⟨[], .free, none⟩

omit [DecidableEq T] in
/-- `registry_find_locked`. -/
def registryFindLocked (tables : Registry T) (table : CStr) : Option ℕ :=
  tables.findIdx? fun e => e.1 = table.take 64

/-- `registry_get_or_create_locked`: the slot, and the registry with it. -/
def registryGetOrCreateLocked (tables : Registry T) (table : CStr) : Option ℕ × Registry T :=
  match registryFindLocked tables table with
  | some i => (some i, tables)
  | none =>
    if tables.length < maxTables then
      (some tables.length, tables ++ [(table.take 63, .free)])
    else (none, tables)

/-! ## The steps of a statement -/

/-- Where a thread is in its statement. -/
inductive Phase
  /-- At the start of `lock_for_statement`. -/
  | entering
  /-- `engine_lock_catalog_read` has returned. -/
  | catalogHeld
  /-- The registry has been asked for the slot of the table. -/
  | slotFound (slot : Option ℕ)
  /-- `lock_for_statement` has returned and `unlock_statement` has not begun. -/
  | inside
  /-- `engine_lock_table_release` has asked the registry. -/
  | releasing (slot : Option ℕ)
  /-- `engine_lock_table_release` has returned. -/
  | tableReleased
  deriving DecidableEq

/-- Lock the slot of a table for reading or writing; without a slot nothing is locked. -/
def lockSlot (locks : Locks T) (t : T) (write : Bool) : Option ℕ → Option (Locks T)
  | none => some locks
  | some i => do
    let (name, l) ← locks.tables[i]?
    let l ← l.lock write t
    some { locks with tables := locks.tables.set i (name, l) }

/-- Unlock the slot of a table. -/
def unlockSlot (locks : Locks T) (t : T) : Option ℕ → Locks T
  | none => locks
  | some i =>
    match locks.tables[i]? with
    | none => locks
    | some (name, l) => { locks with tables := locks.tables.set i (name, l.unlock t) }

/-- The next step of a statement; without a phase it has ended. -/
def statementStep (locks : Locks T) (t : T) (s : Statement) :
    Phase → Option (Locks T × Option Phase)
  -- `lock_for_statement`
  | .entering =>
    if s.single then
      if locks.single = none then some ({ locks with single := some t }, some .inside) else none
    else if s.type = .create then
      (locks.catalog.lock true t).map fun c => ({ locks with catalog := c }, some .inside)
    else (locks.catalog.lock false t).map fun c => ({ locks with catalog := c }, some .catalogHeld)
  | .catalogHeld =>
    let (slot, tables) := registryGetOrCreateLocked locks.tables s.table
    some ({ locks with tables := tables }, some (.slotFound slot))
  | .slotFound slot => (lockSlot locks t (s.type ≠ .select) slot).map (·, some .inside)
  -- `unlock_statement`
  | .inside =>
    if s.single then some ({ locks with single := none }, none)
    else if s.type = .create then some ({ locks with catalog := locks.catalog.unlock t }, none)
    else some (locks, some (.releasing (registryFindLocked locks.tables s.table)))
  | .releasing slot => some (unlockSlot locks t slot, some .tableReleased)
  | .tableReleased => some ({ locks with catalog := locks.catalog.unlock t }, none)

/-- The locks, and for each thread the statement it is in. -/
structure System (T : Type*) where
  locks : Locks T
  threads : T → Option (Statement × Phase)

/-- No thread is in a statement. -/
def System.init : System T := ⟨.init, fun _ => none⟩

/-- What a thread does: it begins a statement, or takes the next step of the one it is in. -/
inductive Event
  | call (s : Statement)
  | go

/-- One step of a thread. -/
def System.step (σ : System T) : T × Event → Option (System T)
  | (t, .call s) =>
    if (σ.threads t).isNone then
      some { σ with threads := Function.update σ.threads t (some (s, .entering)) }
    else none
  | (t, .go) =>
    match σ.threads t with
    | none => none
    | some (s, phase) => (statementStep σ.locks t s phase).map fun r =>
        ⟨r.1, Function.update σ.threads t (r.2.map (s, ·))⟩

/-- The statements a run begins. -/
def calls : List (T × Event) → List Statement
  | [] => []
  | (_, .call s) :: es => s :: calls es
  | (_, .go) :: es => calls es

/-! ## When the locks exclude what they should -/

/-- Two statements that must not be inside together. -/
def Conflict (s s' : Statement) : Prop := s.table = s'.table ∧ (s.isWrite ∨ s'.isWrite)

/-- No two threads are inside with conflicting statements. -/
def System.Exclusive (σ : System T) : Prop := ∀ t t' s s', t ≠ t' →
  σ.threads t = some (s, .inside) → σ.threads t' = some (s', .inside) → ¬ Conflict s s'

/-- Conflicting statements are in the same mode. -/
def SameModes (stmts : List Statement) : Prop :=
  ∀ s ∈ stmts, ∀ s' ∈ stmts, Conflict s s' → s.single = s'.single

/-- Some statement writes rows of the table. -/
def Contested (stmts : List Statement) (table : CStr) : Prop :=
  ∃ w ∈ stmts, w.table = table ∧ w.isWrite ∧ w.type ≠ .create

/-- A statement that asks for the slot of a contested table gets one. -/
def SlotGranted (stmts : List Statement) (σ : System T) (e : T × Event) : Prop :=
  ∀ p ∈ σ.threads e.1, p.2 = .catalogHeld → Contested stmts p.1.table →
    (registryFindLocked σ.locks.tables p.1.table).isSome ∨ σ.locks.tables.length < maxTables

instance (s s' : Statement) : Decidable (Conflict s s') := inferInstanceAs (Decidable (_ ∧ _))

instance (stmts : List Statement) : Decidable (SameModes stmts) :=
  inferInstanceAs (Decidable (∀ s ∈ stmts, ∀ s' ∈ stmts, Conflict s s' → s.single = s'.single))

instance (stmts : List Statement) (table : CStr) : Decidable (Contested stmts table) :=
  inferInstanceAs (Decidable (∃ w ∈ stmts, w.table = table ∧ w.isWrite ∧ w.type ≠ .create))

omit [DecidableEq T] in
instance (stmts : List Statement) (σ : System T) (e : T × Event) :
    Decidable (SlotGranted stmts σ e) :=
  match h : σ.threads e.1 with
  | none => isTrue (by simp [SlotGranted, h])
  | some p => decidable_of_iff (p.2 = .catalogHeld → Contested stmts p.1.table →
      (registryFindLocked σ.locks.tables p.1.table).isSome ∨ σ.locks.tables.length < maxTables)
      (by simp [SlotGranted, h])

/-! ## What a thread holds -/

/-- The thread holds the lock in the slot of a table. -/
def HoldsTable (tables : Registry T) (table : CStr) (write : Bool) (t : T) : Prop :=
  ∃ i name l, registryFindLocked tables table = some i ∧ tables[i]? = some (name, l) ∧
    l.Holds write t

/-- What a thread holds in a phase of its statement. -/
def PhaseOk (stmts : List Statement) (locks : Locks T) (t : T) (s : Statement) : Phase → Prop
  | .entering => True
  | .catalogHeld => s.single = false ∧ s.type ≠ .create ∧ locks.catalog.Holds false t
  | .slotFound slot => s.single = false ∧ s.type ≠ .create ∧ locks.catalog.Holds false t ∧
      (∀ i ∈ slot, registryFindLocked locks.tables s.table = some i) ∧
      (Contested stmts s.table → slot ≠ none)
  | .inside =>
    if s.single then locks.single = some t
    else if s.type = .create then locks.catalog.Holds true t
    else locks.catalog.Holds false t ∧
      (Contested stmts s.table → HoldsTable locks.tables s.table (s.type ≠ .select) t)
  | .releasing _ => locks.catalog.Holds false t
  | .tableReleased => locks.catalog.Holds false t

/-- What a thread holds it holds afterwards as well. -/
structure Keeps (u : T) (locks locks' : Locks T) : Prop where
  single : locks.single = some u → locks'.single = some u
  catalog : ∀ write, locks.catalog.Holds write u → locks'.catalog.Holds write u
  slots : ∀ table i, registryFindLocked locks.tables table = some i →
    registryFindLocked locks'.tables table = some i
  tables : ∀ (i : ℕ) (name : CStr) (l : Rwlock T) write, locks.tables[i]? = some (name, l) →
    l.Holds write u → ∃ l', locks'.tables[i]? = some (name, l') ∧ l'.Holds write u

omit [DecidableEq T] in
theorem Keeps.holdsTable {u : T} {locks locks' : Locks T} (h : Keeps u locks locks') {table : CStr}
    {write : Bool} (ht : HoldsTable locks.tables table write u) :
    HoldsTable locks'.tables table write u := by
  obtain ⟨i, name, l, hslot, hl, hheld⟩ := ht
  obtain ⟨l', hl', hheld'⟩ := h.tables i name l write hl hheld
  exact ⟨i, name, l', h.slots table i hslot, hl', hheld'⟩

omit [DecidableEq T] in
/-- A thread that keeps what it holds stays as its phase wants it. -/
theorem PhaseOk.mono {stmts : List Statement} {locks locks' : Locks T} {u : T} {s : Statement}
    {phase : Phase} (hok : PhaseOk stmts locks u s phase) (h : Keeps u locks locks') :
    PhaseOk stmts locks' u s phase := by
  cases phase with
  | entering => trivial
  | catalogHeld => exact ⟨hok.1, hok.2.1, h.catalog _ hok.2.2⟩
  | slotFound slot =>
    obtain ⟨hmulti, htype, hcatalog, hslot, hgranted⟩ := hok
    exact ⟨hmulti, htype, h.catalog _ hcatalog, fun i hi => h.slots _ i (hslot i hi), hgranted⟩
  | inside =>
    simp only [PhaseOk] at hok ⊢
    split_ifs at hok ⊢
    · exact h.single hok
    · exact h.catalog _ hok
    · exact ⟨h.catalog _ hok.1, fun hc => h.holdsTable (hok.2 hc)⟩
  | releasing slot => exact h.catalog _ hok
  | tableReleased => exact h.catalog _ hok

/-! ## What one step does to the locks -/

omit [DecidableEq T] in
theorem keeps_catalog {u : T} {locks : Locks T} {c : Rwlock T}
    (h : ∀ write, locks.catalog.Holds write u → c.Holds write u) :
    Keeps u locks { locks with catalog := c } :=
  ⟨id, h, fun _ _ => id, fun _ _ l _ hl hheld => ⟨l, hl, hheld⟩⟩

omit [DecidableEq T] in
theorem keeps_single {u : T} {locks : Locks T} {owner : Option T} (h : locks.single ≠ some u) :
    Keeps u locks { locks with single := owner } :=
  ⟨fun hu => absurd hu h, fun _ => id, fun _ _ => id, fun _ _ l _ hl hheld => ⟨l, hl, hheld⟩⟩

omit [DecidableEq T] in
/-- Only the lock in a slot changes, not the slots. -/
theorem registryFindLocked_set {tables : Registry T} {i : ℕ} {name : CStr} {l : Rwlock T}
    (h : tables[i]? = some (name, l)) (l' : Rwlock T) (table : CStr) :
    registryFindLocked (tables.set i (name, l')) table = registryFindLocked tables table := by
  rw [registryFindLocked, registryFindLocked]
  induction tables generalizing i with
  | nil => rfl
  | cons e tables ih =>
    cases i with
    | zero =>
      obtain rfl : e = (name, l) := by simpa using h
      simp [List.findIdx?_cons]
    | succ i => simp [List.findIdx?_cons, ih (by simpa using h)]

omit [DecidableEq T] in
theorem keeps_slot {u : T} {locks : Locks T} {i : ℕ} {name : CStr} {l l' : Rwlock T}
    (hl : locks.tables[i]? = some (name, l)) (h : ∀ write, l.Holds write u → l'.Holds write u) :
    Keeps u locks { locks with tables := locks.tables.set i (name, l') } := by
  refine ⟨id, fun _ => id, fun table j hj => ?_, fun j name' m write hm hheld => ?_⟩
  · exact (registryFindLocked_set hl l' table).trans hj
  · have hlt := (List.getElem?_eq_some_iff.mp hl).1
    by_cases hij : i = j
    · subst hij
      obtain ⟨rfl, rfl⟩ : name = name' ∧ l = m := by
        have := hl.symm.trans hm
        simpa using this
      exact ⟨l', by simp [hlt], h write hheld⟩
    · exact ⟨m, by simpa [List.getElem?_set_ne hij] using hm, hheld⟩

omit [DecidableEq T] in
/-- Registering a table keeps the slots of the others. -/
theorem keeps_registered (u : T) (locks : Locks T) (table : CStr) :
    Keeps u locks
      { locks with tables := (registryGetOrCreateLocked locks.tables table).2 } := by
  rw [registryGetOrCreateLocked]
  cases registryFindLocked locks.tables table with
  | some i => exact ⟨id, fun _ => id, fun _ _ => id, fun _ _ l _ hl hheld => ⟨l, hl, hheld⟩⟩
  | none =>
    split_ifs
    · refine ⟨id, fun _ => id, fun table' i hi => ?_, fun i name l write hl hheld => ?_⟩
      · rw [registryFindLocked] at hi ⊢
        simp [hi]
      · have hlt := (List.getElem?_eq_some_iff.mp hl).1
        exact ⟨l, by rw [List.getElem?_append_left hlt]; exact hl, hheld⟩
    · exact ⟨id, fun _ => id, fun _ _ => id, fun _ _ l _ hl hheld => ⟨l, hl, hheld⟩⟩

/-- No lock has a writer next to readers. -/
structure Locks.Valid (locks : Locks T) : Prop where
  catalog : locks.catalog.Valid
  tables : ∀ e ∈ locks.tables, e.2.Valid

omit [DecidableEq T] in
theorem Locks.Valid.set_slot {locks : Locks T} (h : locks.Valid) (i : ℕ) (name : CStr)
    {l : Rwlock T} (hl : l.Valid) :
    Locks.Valid { locks with tables := locks.tables.set i (name, l) } := by
  refine ⟨h.catalog, fun e he => ?_⟩
  rcases List.mem_or_eq_of_mem_set he with he | rfl
  · exact h.tables e he
  · exact hl

omit [DecidableEq T] in
/-- What locking a slot does. -/
theorem lockSlot_spec {locks locks' : Locks T} {t : T} {write : Bool} {slot : Option ℕ}
    (h : lockSlot locks t write slot = some locks') : (slot = none ∧ locks' = locks) ∨
      ∃ i name l l', slot = some i ∧ locks.tables[i]? = some (name, l) ∧ l'.Valid ∧
        l'.Holds write t ∧ (∀ u w, l.Holds w u → l'.Holds w u) ∧
        locks' = { locks with tables := locks.tables.set i (name, l') } := by
  cases slot with
  | none => exact .inl ⟨rfl, by simpa [lockSlot, eq_comm] using h⟩
  | some i =>
    right
    simp only [lockSlot, Option.bind_eq_bind, Option.bind_eq_some_iff] at h
    obtain ⟨⟨name, l⟩, hl, l', hlock, hlocks⟩ := h
    exact ⟨i, name, l, l', rfl, hl, .lock hlock, Rwlock.holds_lock hlock,
      fun u w hu => hu.lock hlock, by simpa [eq_comm] using hlocks⟩

/-- What unlocking a slot does. -/
theorem unlockSlot_spec (locks : Locks T) (t : T) (slot : Option ℕ) :
    unlockSlot locks t slot = locks ∨
      ∃ i name l, locks.tables[i]? = some (name, l) ∧
        unlockSlot locks t slot =
          { locks with tables := locks.tables.set i (name, l.unlock t) } := by
  cases slot with
  | none => exact .inl rfl
  | some i =>
    rw [unlockSlot]
    split
    · exact .inl rfl
    · exact .inr ⟨_, _, _, by assumption, rfl⟩

/-- What another thread does takes nothing away. -/
theorem keeps_statementStep {locks locks' : Locks T} {t u : T} {s : Statement} {phase : Phase}
    {next : Option Phase} (hne : u ≠ t)
    (hown : phase = .inside → s.single → locks.single = some t)
    (h : statementStep locks t s phase = some (locks', next)) : Keeps u locks locks' := by
  have hsame : Keeps u locks locks := keeps_catalog fun _ => id
  cases phase with
  | entering =>
    simp only [statementStep] at h
    split_ifs at h with hsingle hfree hcreate
    · obtain ⟨rfl, -⟩ := Prod.mk.inj (Option.some.inj h)
      exact keeps_single (by simp [hfree])
    · obtain ⟨c, hlock, heq⟩ := Option.map_eq_some_iff.mp h
      obtain ⟨rfl, -⟩ := Prod.mk.inj heq
      exact keeps_catalog fun w hu => hu.lock hlock
    · obtain ⟨c, hlock, heq⟩ := Option.map_eq_some_iff.mp h
      obtain ⟨rfl, -⟩ := Prod.mk.inj heq
      exact keeps_catalog fun w hu => hu.lock hlock
  | catalogHeld =>
    obtain ⟨rfl, -⟩ := Prod.mk.inj (Option.some.inj h)
    exact keeps_registered u locks s.table
  | slotFound slot =>
    obtain ⟨l, hlock, heq⟩ := Option.map_eq_some_iff.mp h
    obtain ⟨rfl, -⟩ := Prod.mk.inj heq
    rcases lockSlot_spec hlock with ⟨-, rfl⟩ | ⟨i, name, l, l', -, hl, -, -, hkeep, rfl⟩
    · exact hsame
    · exact keeps_slot hl fun w hu => hkeep u w hu
  | inside =>
    simp only [statementStep] at h
    split_ifs at h with hsingle hcreate
    · obtain ⟨rfl, -⟩ := Prod.mk.inj (Option.some.inj h)
      refine keeps_single ?_
      rw [hown rfl hsingle]
      simpa using hne.symm
    · obtain ⟨rfl, -⟩ := Prod.mk.inj (Option.some.inj h)
      exact keeps_catalog fun w hu => hu.unlock hne
    · obtain ⟨rfl, -⟩ := Prod.mk.inj (Option.some.inj h)
      exact hsame
  | releasing slot =>
    obtain ⟨rfl, -⟩ := Prod.mk.inj (Option.some.inj h)
    rcases unlockSlot_spec locks t slot with heq | ⟨i, name, l, hl, heq⟩
    · rw [heq]
      exact hsame
    · rw [heq]
      exact keeps_slot hl fun w hu => hu.unlock hne
  | tableReleased =>
    obtain ⟨rfl, -⟩ := Prod.mk.inj (Option.some.inj h)
    exact keeps_catalog fun w hu => hu.unlock hne

theorem valid_statementStep {locks locks' : Locks T} {t : T} {s : Statement} {phase : Phase}
    {next : Option Phase} (hvalid : locks.Valid)
    (h : statementStep locks t s phase = some (locks', next)) : locks'.Valid := by
  cases phase with
  | entering =>
    simp only [statementStep] at h
    split_ifs at h with hsingle hfree hcreate
    · obtain ⟨rfl, -⟩ := Prod.mk.inj (Option.some.inj h)
      exact ⟨hvalid.catalog, hvalid.tables⟩
    all_goals
      obtain ⟨c, hlock, heq⟩ := Option.map_eq_some_iff.mp h
      obtain ⟨rfl, -⟩ := Prod.mk.inj heq
      exact ⟨.lock hlock, hvalid.tables⟩
  | catalogHeld =>
    obtain ⟨rfl, -⟩ := Prod.mk.inj (Option.some.inj h)
    refine ⟨hvalid.catalog, fun e he => ?_⟩
    dsimp only [registryGetOrCreateLocked] at he
    split at he
    · exact hvalid.tables e he
    · split_ifs at he
      · rcases List.mem_append.mp he with he | he
        · exact hvalid.tables e he
        · obtain rfl := List.mem_singleton.mp he
          exact Rwlock.valid_free
      · exact hvalid.tables e he
  | slotFound slot =>
    obtain ⟨l, hlock, heq⟩ := Option.map_eq_some_iff.mp h
    obtain ⟨rfl, -⟩ := Prod.mk.inj heq
    rcases lockSlot_spec hlock with ⟨-, rfl⟩ | ⟨i, name, l, l', -, -, hl', -, -, rfl⟩
    · exact hvalid
    · exact hvalid.set_slot i name hl'
  | inside =>
    simp only [statementStep] at h
    split_ifs at h with hsingle hcreate
    all_goals obtain ⟨rfl, -⟩ := Prod.mk.inj (Option.some.inj h)
    · exact ⟨hvalid.catalog, hvalid.tables⟩
    · exact ⟨hvalid.catalog.unlock t, hvalid.tables⟩
    · exact hvalid
  | releasing slot =>
    obtain ⟨rfl, -⟩ := Prod.mk.inj (Option.some.inj h)
    rcases unlockSlot_spec locks t slot with heq | ⟨i, name, l, hl, heq⟩
    · rw [heq]
      exact hvalid
    · rw [heq]
      exact hvalid.set_slot i name ((hvalid.tables _ (List.mem_of_getElem? hl)).unlock t)
  | tableReleased =>
    obtain ⟨rfl, -⟩ := Prod.mk.inj (Option.some.inj h)
    exact ⟨hvalid.catalog.unlock t, hvalid.tables⟩

omit [DecidableEq T] in
/-- A table that gets a slot is found in it from then on. -/
theorem registryGetOrCreateLocked_spec (tables : Registry T) {table : CStr}
    (hshort : table.length ≤ 63) :
    (∀ i ∈ (registryGetOrCreateLocked tables table).1,
      registryFindLocked (registryGetOrCreateLocked tables table).2 table = some i) ∧
    ((registryFindLocked tables table).isSome ∨ tables.length < maxTables →
      (registryGetOrCreateLocked tables table).1 ≠ none) := by
  have hname : table.take 63 = table.take 64 := by
    rw [List.take_of_length_le hshort, List.take_of_length_le (by omega)]
  rw [registryGetOrCreateLocked]
  cases hfind : registryFindLocked tables table with
  | some i => exact ⟨by simpa using hfind, by simp⟩
  | none =>
    by_cases hroom : tables.length < maxTables
    · simp only [hroom, if_true]
      refine ⟨fun i hi => ?_, by simp⟩
      obtain rfl : tables.length = i := by simpa using hi
      rw [registryFindLocked] at hfind ⊢
      simp [hfind, hname, List.findIdx?_cons]
    · simp [hroom]

/-- The thread that takes the step holds what its next phase wants. -/
theorem phaseOk_statementStep {stmts : List Statement} {locks locks' : Locks T} {t : T}
    {s : Statement} {phase : Phase} {next : Option Phase} (hok : PhaseOk stmts locks t s phase)
    (hgranted : phase = .catalogHeld → Contested stmts s.table →
      (registryFindLocked locks.tables s.table).isSome ∨ locks.tables.length < maxTables)
    (h : statementStep locks t s phase = some (locks', next)) :
    ∀ p ∈ next, PhaseOk stmts locks' t s p := by
  cases phase with
  | entering =>
    simp only [statementStep] at h
    split_ifs at h with hsingle hfree hcreate
    · obtain ⟨rfl, rfl⟩ := Prod.mk.inj (Option.some.inj h)
      rintro p ⟨rfl⟩
      simp [PhaseOk, hsingle]
    · obtain ⟨c, hlock, heq⟩ := Option.map_eq_some_iff.mp h
      obtain ⟨rfl, rfl⟩ := Prod.mk.inj heq
      rintro p ⟨rfl⟩
      simpa [PhaseOk, hsingle, hcreate] using Rwlock.holds_lock hlock
    · obtain ⟨c, hlock, heq⟩ := Option.map_eq_some_iff.mp h
      obtain ⟨rfl, rfl⟩ := Prod.mk.inj heq
      rintro p ⟨rfl⟩
      exact ⟨by simpa using hsingle, hcreate, Rwlock.holds_lock hlock⟩
  | catalogHeld =>
    obtain ⟨rfl, rfl⟩ := Prod.mk.inj (Option.some.inj h)
    obtain ⟨hmulti, htype, hcatalog⟩ := hok
    obtain ⟨hslot, hroom⟩ := registryGetOrCreateLocked_spec locks.tables s.short
    rintro p ⟨rfl⟩
    exact ⟨hmulti, htype, hcatalog, hslot, fun hc => hroom (hgranted rfl hc)⟩
  | slotFound slot =>
    obtain ⟨l, hlock, heq⟩ := Option.map_eq_some_iff.mp h
    obtain ⟨rfl, rfl⟩ := Prod.mk.inj heq
    obtain ⟨hmulti, htype, hcatalog, hslot, hcontested⟩ := hok
    rintro p ⟨rfl⟩
    simp only [PhaseOk, hmulti, htype, Bool.false_eq_true, if_false]
    rcases lockSlot_spec hlock with ⟨rfl, rfl⟩ | ⟨i, name, l, l', rfl, hl, -, hheld, -, rfl⟩
    · exact ⟨hcatalog, fun hc => absurd rfl (hcontested hc)⟩
    · have hlt := (List.getElem?_eq_some_iff.mp hl).1
      refine ⟨hcatalog, fun _ => ⟨i, name, l', ?_, by simp [hlt], hheld⟩⟩
      exact (registryFindLocked_set hl l' s.table).trans (hslot i rfl)
  | inside =>
    simp only [statementStep] at h
    split_ifs at h with hsingle hcreate
    all_goals obtain ⟨rfl, rfl⟩ := Prod.mk.inj (Option.some.inj h)
    · rintro p ⟨⟩
    · rintro p ⟨⟩
    · simp only [PhaseOk, hsingle, hcreate, Bool.false_eq_true, if_false] at hok
      rintro p ⟨rfl⟩
      exact hok.1
  | releasing slot =>
    obtain ⟨rfl, rfl⟩ := Prod.mk.inj (Option.some.inj h)
    rintro p ⟨rfl⟩
    have hcatalog : (unlockSlot locks t slot).catalog = locks.catalog := by
      rcases unlockSlot_spec locks t slot with heq | ⟨i, name, l, hl, heq⟩ <;> rw [heq]
    change (unlockSlot locks t slot).catalog.Holds false t
    rw [hcatalog]
    exact hok
  | tableReleased =>
    obtain ⟨rfl, rfl⟩ := Prod.mk.inj (Option.some.inj h)
    rintro p ⟨⟩

/-! ## Runs -/

/-- The invariant of a run that begins the given statements. -/
structure System.Inv (stmts : List Statement) (σ : System T) : Prop where
  valid : σ.locks.Valid
  begun : ∀ t s phase, σ.threads t = some (s, phase) → s ∈ stmts
  phases : ∀ t s phase, σ.threads t = some (s, phase) → PhaseOk stmts σ.locks t s phase

/-- The condition on one step of a run that begins the given statements. -/
def StepOk (stmts : List Statement) (σ : System T) (e : T × Event) : Prop :=
  SlotGranted stmts σ e ∧ ∀ s, e.2 = .call s → s ∈ stmts

omit [DecidableEq T] in
theorem inv_init (stmts : List Statement) : System.Inv stmts (System.init : System T) :=
  ⟨⟨Rwlock.valid_free, by simp [System.init, Locks.init]⟩, by simp [System.init],
    by simp [System.init]⟩

/-- One thread moves on, and takes nothing from the others. -/
theorem System.Inv.update {stmts : List Statement} {σ : System T} (h : σ.Inv stmts)
    {locks' : Locks T} (hvalid : locks'.Valid) {t : T} {now : Option (Statement × Phase)}
    (hnow : ∀ s phase, now = some (s, phase) → s ∈ stmts ∧ PhaseOk stmts locks' t s phase)
    (hkeeps : ∀ u, u ≠ t → Keeps u σ.locks locks') :
    System.Inv stmts ⟨locks', Function.update σ.threads t now⟩ := by
  have hthreads : ∀ u s phase, Function.update σ.threads t now u = some (s, phase) →
      s ∈ stmts ∧ PhaseOk stmts locks' u s phase := by
    intro u s phase hu
    by_cases hut : u = t
    · subst hut
      rw [Function.update_self] at hu
      exact hnow s phase hu
    · rw [Function.update_of_ne hut] at hu
      exact ⟨h.begun u s phase hu, (h.phases u s phase hu).mono (hkeeps u hut)⟩
  exact ⟨hvalid, fun u s phase hu => (hthreads u s phase hu).1,
    fun u s phase hu => (hthreads u s phase hu).2⟩

/-- **One step of a thread keeps the invariant.** -/
theorem System.Inv.step {stmts : List Statement} {σ σ' : System T} {e : T × Event}
    (h : σ.Inv stmts) (hok : StepOk stmts σ e) (hstep : σ.step e = some σ') : σ'.Inv stmts := by
  obtain ⟨t, event⟩ := e
  cases event with
  | call s =>
    simp only [System.step] at hstep
    split_ifs at hstep
    obtain rfl := Option.some.inj hstep
    refine h.update h.valid ?_ fun u _ => keeps_catalog fun _ => id
    rintro s' phase ⟨⟩
    exact ⟨hok.2 s rfl, trivial⟩
  | go =>
    simp only [System.step] at hstep
    cases ht : σ.threads t with
    | none => simp [ht] at hstep
    | some p =>
      obtain ⟨s, phase⟩ := p
      rw [ht] at hstep
      obtain ⟨⟨locks', next⟩, hgo, heq⟩ := Option.map_eq_some_iff.mp hstep
      obtain rfl := heq.symm
      have hphase := h.phases t s phase ht
      have hown : phase = .inside → s.single → σ.locks.single = some t := by
        rintro rfl hsingle
        simpa [PhaseOk, hsingle] using hphase
      have hgranted : phase = .catalogHeld → Contested stmts s.table →
          (registryFindLocked σ.locks.tables s.table).isSome ∨
            σ.locks.tables.length < maxTables := by
        rintro rfl
        exact hok.1 (s, .catalogHeld) ht rfl
      refine h.update (valid_statementStep h.valid hgo) (fun s' phase' hnow => ?_)
        fun u hut => keeps_statementStep hut hown hgo
      obtain ⟨p, hp, heq⟩ := Option.map_eq_some_iff.mp hnow
      obtain ⟨rfl, rfl⟩ := Prod.mk.inj heq
      exact ⟨h.begun t s phase ht, phaseOk_statementStep hphase hgranted hgo p hp⟩

omit [DecidableEq T] in
/-- In the same mode, what the threads hold excludes conflicting statements. -/
theorem System.Inv.exclusive {stmts : List Statement} {σ : System T} (h : σ.Inv stmts)
    (hmodes : SameModes stmts) : σ.Exclusive := by
  intro t t' s s' hne hs hs' hconflict
  have hmode := hmodes s (h.begun t s _ hs) s' (h.begun t' s' _ hs') hconflict
  have hheld := h.phases t s _ hs
  have hheld' := h.phases t' s' _ hs'
  simp only [PhaseOk, ← hmode] at hheld hheld'
  by_cases hsingle : s.single
  · rw [if_pos hsingle] at hheld hheld'
    exact hne (Option.some.inj (hheld.symm.trans hheld'))
  rw [if_neg hsingle] at hheld hheld'
  obtain ⟨htable, hwrite⟩ := hconflict
  by_cases hcreate : s.type = .create
  · rw [if_pos hcreate] at hheld
    split_ifs at hheld'
    · exact hne (h.valid.catalog.writer_unique hheld hheld')
    · exact hne (h.valid.catalog.writer_unique hheld hheld'.1)
  by_cases hcreate' : s'.type = .create
  · rw [if_pos hcreate'] at hheld'
    rw [if_neg hcreate] at hheld
    exact hne (h.valid.catalog.writer_unique hheld' hheld.1).symm
  -- both hold the lock of the table, one of them for writing
  rw [if_neg hcreate] at hheld
  rw [if_neg hcreate'] at hheld'
  have hcontested : Contested stmts s.table := by
    rcases hwrite with hwrite | hwrite
    · exact ⟨s, h.begun t s _ hs, rfl, hwrite, hcreate⟩
    · exact ⟨s', h.begun t' s' _ hs', htable.symm, hwrite, hcreate'⟩
  obtain ⟨i, name, l, hslot, hl, hlock⟩ := hheld.2 hcontested
  obtain ⟨i', name', l', hslot', hl', hlock'⟩ := hheld'.2 (htable ▸ hcontested)
  obtain rfl : i = i' := Option.some.inj (hslot.symm.trans (htable ▸ hslot'))
  obtain ⟨-, rfl⟩ := Prod.mk.inj (Option.some.inj (hl.symm.trans hl'))
  have hvalid : l.Valid := h.valid.tables _ (List.mem_of_getElem? hl)
  have hwrites : ∀ w : Statement, w.isWrite → w.type ≠ .select := by
    intro w hw hsel
    simp [Statement.isWrite, hsel] at hw
  rcases hwrite with hwrite | hwrite
  · rw [decide_eq_true (hwrites s hwrite)] at hlock
    exact hne (hvalid.writer_unique hlock hlock')
  · rw [decide_eq_true (hwrites s' hwrite)] at hlock'
    exact hne (hvalid.writer_unique hlock' hlock).symm

omit [DecidableEq T] in
theorem mem_calls {events : List (T × Event)} {e : T × Event} {s : Statement} (he : e ∈ events)
    (hs : e.2 = .call s) : s ∈ calls events := by
  induction events with
  | nil => exact absurd he (by simp)
  | cons f events ih =>
    obtain ⟨t, event⟩ := f
    rcases List.mem_cons.mp he with rfl | hmem
    · obtain rfl : event = .call s := hs
      simp [calls]
    · cases event with
      | call s' => exact List.mem_cons_of_mem _ (ih hmem)
      | go => exact ih hmem

/-- Thread 0 gets inside with an `INSERT`, thread 1 asks for the slot of the same table. -/
def insertSelect : List (ℕ × Event) :=
  [(0, .call ⟨false, .insert, "t".toList, by decide⟩), (0, .go), (0, .go), (0, .go),
    (1, .call ⟨false, .select, "t".toList, by decide⟩), (1, .go), (1, .go)]

/-- **When conflicting statements are in the same mode and the contested tables get their slots,
two conflicting statements are never both inside.** -/
theorem exclusive_of_run {events : List (T × Event)} {σ : System T}
    (hmodes : SameModes (calls events))
    (hslots : Runs.Meets System.step (SlotGranted (calls events)) System.init events)
    (hrun : Runs.run System.step System.init events = some σ) : σ.Exclusive := by
  have hok : Runs.Meets System.step (StepOk (calls events)) System.init events :=
    hslots.imp fun σ e he hgranted => ⟨hgranted, fun s hs => mem_calls he hs⟩
  have hinv : σ.Inv (calls events) :=
    Runs.invariant (fun σ e σ' hinv hok hstep => System.Inv.step hinv hok hstep)
      (inv_init _) hok hrun
  exact hinv.exclusive hmodes

/-- An `INSERT` inside and a `SELECT` on the same table, which has to wait. -/
theorem exclusive_insert_select :
    ∃ σ, Runs.run System.step (System.init : System ℕ) insertSelect = some σ ∧ σ.Exclusive := by
  obtain ⟨σ, hrun⟩ : ∃ σ, Runs.run System.step (System.init : System ℕ) insertSelect = some σ :=
    Option.isSome_iff_exists.mp (by decide)
  refine ⟨σ, hrun, exclusive_of_run ?_ ?_ hrun⟩
  · decide
  · decide

/-! ## Where they do not -/

/-- A thread gets inside with a statement. -/
def Enters (σ : System T) (t : T) (s : Statement) (locks' : Locks T) : Prop :=
  ∃ events, Runs.run System.step σ events =
    some ⟨locks', Function.update σ.threads t (some (s, .inside))⟩

theorem enters_single {σ : System T} {t : T} {s : Statement} (hidle : σ.threads t = none)
    (hsingle : s.single) (hfree : σ.locks.single = none) :
    Enters σ t s { σ.locks with single := some t } :=
  ⟨[(t, .call s), (t, .go)], by
    simp [Runs.run, System.step, hidle, statementStep, hsingle, hfree]⟩

theorem enters_create {σ : System T} {t : T} {s : Statement} (hidle : σ.threads t = none)
    (hmulti : s.single = false) (hcreate : s.type = .create) (catalog : Rwlock T)
    (hlock : σ.locks.catalog.lock true t = some catalog) :
    Enters σ t s { σ.locks with catalog := catalog } :=
  ⟨[(t, .call s), (t, .go)], by
    simp [Runs.run, System.step, hidle, statementStep, hmulti, hcreate, hlock]⟩

theorem enters_table {σ : System T} {t : T} {s : Statement} (hidle : σ.threads t = none)
    (hmulti : s.single = false) (hcreate : s.type ≠ .create) (catalog : Rwlock T) (locks : Locks T)
    (hcatalog : σ.locks.catalog.lock false t = some catalog)
    (hslot : lockSlot { σ.locks with
        catalog := catalog
        tables := (registryGetOrCreateLocked σ.locks.tables s.table).2 } t (s.type ≠ .select)
      (registryGetOrCreateLocked σ.locks.tables s.table).1 = some locks) :
    Enters σ t s locks :=
  ⟨[(t, .call s), (t, .go), (t, .go), (t, .go)], by
    simp [Runs.run, System.step, hidle, statementStep, hmulti, hcreate, hcatalog] at hslot ⊢
    simp [hslot]⟩

/-- In the multi mode a first thread gets inside, and the mutex stays free. -/
theorem enters_init (t : T) {s : Statement} (hmulti : s.single = false) :
    ∃ locks : Locks T, Enters .init t s locks ∧ locks.single = none := by
  by_cases hcreate : s.type = .create
  · exact ⟨_, enters_create rfl hmulti hcreate ⟨[], some t⟩ rfl, rfl⟩
  · have hslot : registryGetOrCreateLocked ([] : Registry T) s.table =
        (some 0, [(s.table.take 63, .free)]) := rfl
    obtain ⟨l, hlock⟩ : ∃ l, (Rwlock.free : Rwlock T).lock (s.type ≠ .select) t = some l := by
      cases decide (s.type ≠ .select)
      · exact ⟨_, rfl⟩
      · exact ⟨_, rfl⟩
    refine ⟨⟨[(s.table.take 63, l)], ⟨[t], none⟩, none⟩,
      enters_table rfl hmulti hcreate ⟨[t], none⟩ _ rfl ?_, rfl⟩
    simp only [System.init, Locks.init, hslot, lockSlot]
    simp only [List.getElem?_cons_zero, Option.bind_eq_bind, Option.bind_some, hlock]
    rfl

/-- Two threads get inside one after the other. -/
theorem Enters.both {σ : System T} {t t' : T} {s s' : Statement} {locks locks' : Locks T}
    (hne : t ≠ t') (h : Enters σ t s locks)
    (h' : Enters ⟨locks, Function.update σ.threads t (some (s, .inside))⟩ t' s' locks') :
    ∃ events σ', Runs.run System.step σ events = some σ' ∧
      σ'.threads t = some (s, .inside) ∧ σ'.threads t' = some (s', .inside) := by
  obtain ⟨events, hrun⟩ := h
  obtain ⟨events', hrun'⟩ := h'
  exact ⟨events ++ events', _, Runs.run_append.mpr ⟨_, hrun, hrun'⟩, by simp [hne], by simp⟩

/-- Any two statements of different modes can be inside together: the modes share no lock. -/
theorem overlap_of_modes {t t' : T} (hne : t ≠ t') {s s' : Statement} (hmulti : s.single = false)
    (hsingle : s'.single) :
    ∃ events σ, Runs.run System.step (System.init : System T) events = some σ ∧
      σ.threads t = some (s, .inside) ∧ σ.threads t' = some (s', .inside) := by
  obtain ⟨locks, henter, hfree⟩ := enters_init t hmulti
  exact henter.both hne (enters_single (by simp [System.init, hne.symm]) hsingle hfree)

/-- When the registry is full, any two statements on a table without a slot can be inside
together. -/
theorem overlap_of_full {σ : System T} {t t' : T} (hne : t ≠ t') {s s' : Statement}
    (hidle : σ.threads t = none) (hidle' : σ.threads t' = none)
    (hcatalog : σ.locks.catalog.writer = none) (hfull : σ.locks.tables.length = maxTables)
    (htable : s.table = s'.table) (hslot : registryFindLocked σ.locks.tables s.table = none)
    (hmulti : s.single = false) (hmulti' : s'.single = false) (hcreate : s.type ≠ .create)
    (hcreate' : s'.type ≠ .create) :
    ∃ events σ', Runs.run System.step σ events = some σ' ∧
      σ'.threads t = some (s, .inside) ∧ σ'.threads t' = some (s', .inside) := by
  have hget : registryGetOrCreateLocked σ.locks.tables s.table = (none, σ.locks.tables) := by
    simp [registryGetOrCreateLocked, hslot, hfull]
  have hlock : σ.locks.catalog.lock false t = some ⟨t :: σ.locks.catalog.readers, none⟩ :=
    Rwlock.rdlock_eq_some.mpr ⟨hcatalog, by rw [← hcatalog]⟩
  have henter : Enters σ t s { σ.locks with catalog := ⟨t :: σ.locks.catalog.readers, none⟩ } := by
    refine enters_table hidle hmulti hcreate _ _ hlock ?_
    rw [hget]
    rfl
  refine henter.both hne (enters_table (by simp [hne.symm, hidle']) hmulti' hcreate'
    ⟨t' :: t :: σ.locks.catalog.readers, none⟩
    { σ.locks with catalog := ⟨t' :: t :: σ.locks.catalog.readers, none⟩ } rfl ?_)
  dsimp only
  rw [← htable, hget]
  rfl

/-- A `SELECT` in the multi mode and a `DELETE` in the single mode on one table. -/
theorem exclusive_not_across_modes :
    ¬ ∀ (events : List (ℕ × Event)) (σ : System ℕ),
      Runs.run System.step System.init events = some σ → σ.Exclusive := by
  intro h
  obtain ⟨events, σ, hrun, hs, hs'⟩ := @overlap_of_modes ℕ _ 0 1 (by decide)
    ⟨false, .select, "t".toList, by decide⟩ ⟨true, .delete, "t".toList, by decide⟩ rfl rfl
  exact h events σ hrun 0 1 _ _ (by decide) hs hs' ⟨rfl, by decide⟩

end MiniSql

import Mathlib.Algebra.BigOperators.Group.Finset.Basic
import Mathlib.Tactic.Ring
import MiniSql.EngineLock

/-!
# The threads never wait for each other in a circle

Whatever the threads run, in one mode or in both, with room in `s_tables` or without: a lock is
held by exactly the threads that are where they hold it, so a thread that waits waits for one that
can go on, and a thread that has left its statement holds nothing.

## Main definitions

* `singleMode`, `catalogMode`, `slotMode` — what a thread holds where it is.
* `System.Accounted` — the locks are held by exactly these threads.
* `System.owed` — how many steps the statements still have to take.

## Main results

* `System.Accounted.step` — one step keeps the account exact.
* `stuck_of_run` — where no thread can go on, no thread is in a statement and all locks are free.
* `drain_of_run` — every run can be carried on to where all statements have ended.
-/

namespace MiniSql
open CText

variable {T : Type*}

/-! ## What a thread holds -/

/-- The thread is inside with a statement of the single mode. -/
def singleMode : Option (Statement × Phase) → Bool
  | some (s, .inside) => s.single
  | _ => false

/-- The mode in which the thread holds the lock of the catalog. -/
def catalogMode : Option (Statement × Phase) → Option Bool
  | none | some (_, .entering) => none
  | some (s, .inside) => if s.single then none else some (s.type = .create)
  | some (_, .catalogHeld) | some (_, .slotFound _) | some (_, .releasing _)
  | some (_, .tableReleased) => some false

/-- The mode in which the thread holds the lock in a slot of `s_tables`. -/
def slotMode (tables : Registry T) (i : ℕ) : Option (Statement × Phase) → Option Bool
  | some (s, .inside) =>
    if s.single = false ∧ s.type ≠ .create ∧ registryFindLocked tables s.table = some i then
      some (s.type ≠ .select)
    else none
  | some (s, .releasing slot) => if slot = some i then some (s.type ≠ .select) else none
  | _ => none

/-- A slot that was asked for: it is found again, and without one `s_tables` is full. -/
def SlotKnown (tables : Registry T) (table : CStr) (slot : Option ℕ) : Prop :=
  slot = registryFindLocked tables table ∧ (slot = none → maxTables ≤ tables.length)

/-- A statement of a table, not of the catalog. -/
def Statement.OnTable (s : Statement) : Prop := s.single = false ∧ s.type ≠ .create

/-- What a phase says about the statement and the slots. -/
def PhaseFits (tables : Registry T) (s : Statement) : Phase → Prop
  | .entering => True
  | .catalogHeld | .tableReleased => s.OnTable
  | .slotFound slot | .releasing slot => s.OnTable ∧ SlotKnown tables s.table slot
  | .inside => s.OnTable → SlotKnown tables s.table (registryFindLocked tables s.table)

/-- Every lock is held by exactly the threads that are where they hold it. -/
structure System.Accounted (σ : System T) : Prop where
  single : ∀ t, σ.locks.single = some t ↔ singleMode (σ.threads t)
  catalog : σ.locks.catalog.Exact fun t => catalogMode (σ.threads t)
  slots : ∀ (i : ℕ) (name : CStr) (l : Rwlock T), σ.locks.tables[i]? = some (name, l) →
    l.Exact fun t => slotMode σ.locks.tables i (σ.threads t)
  fits : ∀ t s phase, σ.threads t = some (s, phase) → PhaseFits σ.locks.tables s phase

theorem accounted_init : System.Accounted (System.init : System T) where
  single := by simp [System.init, Locks.init, singleMode]
  catalog := Rwlock.exact_free
  slots := by simp [System.init, Locks.init]
  fits := by simp [System.init]

/-! ## What registering a table leaves as it is -/

/-- The slot of a table is one of `s_tables`. -/
theorem registryFindLocked_lt {tables : Registry T} {table : CStr} {i : ℕ}
    (h : registryFindLocked tables table = some i) : i < tables.length := by
  rw [registryFindLocked, List.findIdx?_eq_some_iff_getElem] at h
  exact h.choose

/-- Appending a slot keeps the slots that were found. -/
theorem registryFindLocked_append {tables more : Registry T} {table : CStr} {i : ℕ}
    (h : registryFindLocked tables table = some i) :
    registryFindLocked (tables ++ more) table = some i := by
  rw [registryFindLocked] at h ⊢
  simp [h]

/-- A slot that is known stays known when a table is registered. -/
theorem SlotKnown.registered {tables : Registry T} {table : CStr} {slot : Option ℕ}
    (h : SlotKnown tables table slot) (table' : CStr) :
    SlotKnown (registryGetOrCreateLocked tables table').2 table slot := by
  obtain ⟨hslot, hfull⟩ := h
  rw [registryGetOrCreateLocked]
  cases registryFindLocked tables table' with
  | some i => exact ⟨hslot, hfull⟩
  | none =>
    by_cases hroom : tables.length < maxTables
    · simp only [hroom, if_true]
      cases slot with
      | none =>
        have := hfull rfl
        omega
      | some i => exact ⟨(registryFindLocked_append hslot.symm).symm, by simp⟩
    · simp only [hroom, if_false]
      exact ⟨hslot, hfull⟩

/-- The slot that `registry_get_or_create_locked` gives is known. -/
theorem slotKnown_registered (tables : Registry T) {table : CStr} (hshort : table.length ≤ 63) :
    SlotKnown (registryGetOrCreateLocked tables table).2 table
      (registryGetOrCreateLocked tables table).1 := by
  obtain ⟨hslot, hroom⟩ := registryGetOrCreateLocked_spec tables hshort
  constructor
  · cases hget : (registryGetOrCreateLocked tables table).1 with
    | some i => exact (hslot i (by simp [hget])).symm
    | none =>
      rw [registryGetOrCreateLocked] at hget ⊢
      cases hfind : registryFindLocked tables table with
      | some i => simp [hfind] at hget
      | none =>
        rw [hfind] at hget
        split_ifs at hget ⊢
        simp [hfind]
  · intro hnone
    rw [registryGetOrCreateLocked] at hnone ⊢
    cases hfind : registryFindLocked tables table with
    | some i => simp [hfind] at hnone
    | none =>
      rw [hfind] at hnone
      by_cases hroom : tables.length < maxTables
      · simp [hroom] at hnone
      · simp only [hroom, if_false]
        omega

/-- A phase fits after a table was registered where it fitted before. -/
theorem PhaseFits.registered {tables : Registry T} {s : Statement} {phase : Phase}
    (h : PhaseFits tables s phase) (table : CStr) :
    PhaseFits (registryGetOrCreateLocked tables table).2 s phase := by
  cases phase with
  | entering => trivial
  | catalogHeld => exact h
  | slotFound slot => exact ⟨h.1, h.2.registered table⟩
  | inside =>
    intro hon
    have hknown := (h hon).registered table
    rw [← hknown.1]
    exact hknown
  | releasing slot => exact ⟨h.1, h.2.registered table⟩
  | tableReleased => exact h

/-- Registering a table moves no lock from one thread to another. -/
theorem slotMode_registered {tables : Registry T} {p : Option (Statement × Phase)}
    (hfits : ∀ s phase, p = some (s, phase) → PhaseFits tables s phase) (table : CStr) (i : ℕ) :
    slotMode (registryGetOrCreateLocked tables table).2 i p = slotMode tables i p := by
  obtain - | ⟨s, phase⟩ := p
  · rfl
  cases phase with
  | inside =>
    have hsame : s.OnTable → registryFindLocked (registryGetOrCreateLocked tables table).2 s.table =
        registryFindLocked tables s.table := fun hon =>
      ((hfits s .inside rfl hon).registered table).1.symm
    by_cases hon : s.OnTable
    · simp only [slotMode, hsame hon]
    · have hnot : ∀ P : Prop, ¬ (s.single = false ∧ s.type ≠ .create ∧ P) :=
        fun P hP => hon ⟨hP.1, hP.2.1⟩
      simp only [slotMode, hnot, if_false]
  | entering | catalogHeld | slotFound slot | releasing slot | tableReleased => rfl

/-- Only the lock in a slot changes: every thread holds the slots as before. -/
theorem slotMode_set {tables : Registry T} {j : ℕ} {name : CStr} {l : Rwlock T}
    (h : tables[j]? = some (name, l)) (l' : Rwlock T) (i : ℕ) (p : Option (Statement × Phase)) :
    slotMode (tables.set j (name, l')) i p = slotMode tables i p := by
  obtain - | ⟨s, phase⟩ := p
  · rfl
  cases phase with
  | inside => simp only [slotMode, registryFindLocked_set h]
  | entering | catalogHeld | slotFound slot | releasing slot | tableReleased => rfl

theorem PhaseFits.set {tables : Registry T} {j : ℕ} {name : CStr} {l : Rwlock T}
    (h : tables[j]? = some (name, l)) (l' : Rwlock T) {s : Statement} {phase : Phase}
    (hfits : PhaseFits tables s phase) : PhaseFits (tables.set j (name, l')) s phase := by
  cases phase with
  | entering => trivial
  | catalogHeld | tableReleased => exact hfits
  | slotFound slot | releasing slot | inside =>
    simpa only [PhaseFits, SlotKnown, registryFindLocked_set h, List.length_set] using hfits

/-! ## One thread moves on -/

variable [DecidableEq T]

/-- What the others hold does not depend on where the thread is. -/
theorem exact_moved {l : Rwlock T} {f : Option (Statement × Phase) → Option Bool}
    {threads : T → Option (Statement × Phase)} {t : T} {now : Option (Statement × Phase)}
    (h : l.Exact (Function.update (fun u => f (threads u)) t (f now))) :
    l.Exact fun u => f (Function.update threads t now u) := by
  apply h.congr
  intro u
  by_cases hu : u = t
  · subst hu
    simp
  · simp [Function.update_of_ne hu]

theorem exact_stays {l : Rwlock T} {f : Option (Statement × Phase) → Option Bool}
    {threads : T → Option (Statement × Phase)} {t : T} {now : Option (Statement × Phase)}
    (h : l.Exact fun u => f (threads u)) (hsame : f now = f (threads t)) :
    l.Exact fun u => f (Function.update threads t now u) := by
  apply exact_moved
  rw [hsame, Function.update_eq_self]
  exact h

omit [DecidableEq T] in
theorem slotMode_of_le {tables : Registry T} {p : Option (Statement × Phase)}
    (hfits : ∀ s phase, p = some (s, phase) → PhaseFits tables s phase) {i : ℕ}
    (hi : tables.length ≤ i) : slotMode tables i p = none := by
  have hfar : ∀ table, registryFindLocked tables table ≠ some i := by
    intro table hfind
    have := registryFindLocked_lt hfind
    omega
  obtain - | ⟨s, phase⟩ := p
  · rfl
  cases phase with
  | inside => simp [slotMode, hfar]
  | releasing slot =>
    have hslot : slot ≠ some i := by
      rw [(hfits s _ rfl).2.1]
      exact hfar _
    simp [slotMode, hslot]
  | entering | catalogHeld | slotFound slot | tableReleased => rfl

section Moves

variable {σ : System T} {t : T} {now : Option (Statement × Phase)}

/-- Only the thread that moves has to fit anew. -/
theorem fits_moved {tables : Registry T} {threads : T → Option (Statement × Phase)}
    (h : ∀ u s phase, threads u = some (s, phase) → PhaseFits tables s phase)
    (hnow : ∀ s phase, now = some (s, phase) → PhaseFits tables s phase) :
    ∀ u s phase, Function.update threads t now u = some (s, phase) → PhaseFits tables s phase := by
  intro u s phase hu
  by_cases hut : u = t
  · subst hut
    rw [Function.update_self] at hu
    exact hnow s phase hu
  · rw [Function.update_of_ne hut] at hu
    exact h u s phase hu

/-- The mutex of the single mode stays with the thread that holds it. -/
theorem System.Accounted.single_stays (h : σ.Accounted)
    (hsame : singleMode now = singleMode (σ.threads t)) :
    ∀ u, σ.locks.single = some u ↔ singleMode (Function.update σ.threads t now u) := by
  intro u
  rw [h.single u]
  by_cases hut : u = t
  · subst hut
    simp [hsame]
  · rw [Function.update_of_ne hut]

/-- The thread moves on, and its locks stay what they are but for the mutex of the single mode. -/
theorem System.Accounted.moveSingle (h : σ.Accounted) (owner : Option T)
    (hself : owner = some t ↔ singleMode now)
    (hothers : ∀ u, u ≠ t → (owner = some u ↔ σ.locks.single = some u))
    (hcatalog : catalogMode now = catalogMode (σ.threads t))
    (hslots : ∀ i, slotMode σ.locks.tables i now = slotMode σ.locks.tables i (σ.threads t))
    (hnow : ∀ s phase, now = some (s, phase) → PhaseFits σ.locks.tables s phase) :
    System.Accounted
      ⟨{ σ.locks with single := owner }, Function.update σ.threads t now⟩ where
  single := by
    intro u
    by_cases hut : u = t
    · subst hut
      simpa using hself
    · simp only [Function.update_of_ne hut]
      exact (hothers u hut).trans (h.single u)
  catalog := exact_stays h.catalog hcatalog
  slots := fun i name l hl => exact_stays (f := slotMode σ.locks.tables i) (h.slots i name l hl)
    (hslots i)
  fits := fits_moved h.fits hnow

/-- The thread moves on and holds the catalog in another way. -/
theorem System.Accounted.moveCatalog (h : σ.Accounted) {c : Rwlock T}
    (hc : c.Exact (Function.update (fun u => catalogMode (σ.threads u)) t (catalogMode now)))
    (hsingle : singleMode now = singleMode (σ.threads t))
    (hslots : ∀ i, slotMode σ.locks.tables i now = slotMode σ.locks.tables i (σ.threads t))
    (hnow : ∀ s phase, now = some (s, phase) → PhaseFits σ.locks.tables s phase) :
    System.Accounted
      ⟨{ σ.locks with catalog := c }, Function.update σ.threads t now⟩ where
  single := h.single_stays hsingle
  catalog := exact_moved hc
  slots := fun i name l hl => exact_stays (f := slotMode σ.locks.tables i) (h.slots i name l hl)
    (hslots i)
  fits := fits_moved h.fits hnow

/-- The thread moves on and holds what it held. -/
theorem System.Accounted.moveOn (h : σ.Accounted)
    (hsingle : singleMode now = singleMode (σ.threads t))
    (hcatalog : catalogMode now = catalogMode (σ.threads t))
    (hslots : ∀ i, slotMode σ.locks.tables i now = slotMode σ.locks.tables i (σ.threads t))
    (hnow : ∀ s phase, now = some (s, phase) → PhaseFits σ.locks.tables s phase) :
    System.Accounted ⟨σ.locks, Function.update σ.threads t now⟩ := by
  apply h.moveCatalog (c := σ.locks.catalog) _ hsingle hslots hnow
  rw [hcatalog, Function.update_eq_self]
  exact h.catalog

/-- The thread moves on and holds one slot in another way. -/
theorem System.Accounted.moveSlot (h : σ.Accounted) {j : ℕ} {name : CStr} {l l' : Rwlock T}
    (hl : σ.locks.tables[j]? = some (name, l))
    (hl' : l'.Exact (Function.update (fun u => slotMode σ.locks.tables j (σ.threads u)) t
      (slotMode σ.locks.tables j now)))
    (hsingle : singleMode now = singleMode (σ.threads t))
    (hcatalog : catalogMode now = catalogMode (σ.threads t))
    (hslots : ∀ i, i ≠ j →
      slotMode σ.locks.tables i now = slotMode σ.locks.tables i (σ.threads t))
    (hnow : ∀ s phase, now = some (s, phase) → PhaseFits σ.locks.tables s phase) :
    System.Accounted ⟨{ σ.locks with tables := σ.locks.tables.set j (name, l') },
      Function.update σ.threads t now⟩ where
  single := h.single_stays hsingle
  catalog := exact_stays h.catalog hcatalog
  slots := by
    intro i name' m hm
    have hlt := (List.getElem?_eq_some_iff.mp hl).1
    simp only [slotMode_set hl]
    by_cases hij : i = j
    · subst hij
      obtain ⟨rfl, rfl⟩ : name = name' ∧ l' = m := by simpa [hlt] using hm
      exact exact_moved (f := slotMode σ.locks.tables i) hl'
    · rw [List.getElem?_set_ne (Ne.symm hij)] at hm
      exact exact_stays (f := slotMode σ.locks.tables i) (h.slots i name' m hm) (hslots i hij)
  fits := fits_moved (fun u s phase hu => (h.fits u s phase hu).set hl l')
    fun s phase hs => (hnow s phase hs).set hl l'

/-- The thread moves on and registers a table. -/
theorem System.Accounted.moveRegistered (h : σ.Accounted) (table : CStr)
    (hsingle : singleMode now = singleMode (σ.threads t))
    (hcatalog : catalogMode now = catalogMode (σ.threads t))
    (hslots : ∀ tables : Registry T, ∀ i,
      slotMode tables i now = none ∧ slotMode tables i (σ.threads t) = none)
    (hnow : ∀ s phase, now = some (s, phase) →
      PhaseFits (registryGetOrCreateLocked σ.locks.tables table).2 s phase) :
    System.Accounted
      ⟨{ σ.locks with tables := (registryGetOrCreateLocked σ.locks.tables table).2 },
        Function.update σ.threads t now⟩ where
  single := h.single_stays hsingle
  catalog := exact_stays h.catalog hcatalog
  slots := by
    intro i name l hl
    have hold : ∀ u, slotMode (registryGetOrCreateLocked σ.locks.tables table).2 i (σ.threads u) =
        slotMode σ.locks.tables i (σ.threads u) :=
      fun u => slotMode_registered (h.fits u) table i
    apply exact_stays (f := slotMode (registryGetOrCreateLocked σ.locks.tables table).2 i)
    · simp only [hold]
      simp only [registryGetOrCreateLocked] at hl
      split at hl
      · exact h.slots i name l hl
      split_ifs at hl with hroom
      · rcases Nat.lt_or_ge i σ.locks.tables.length with hi | hi
        · rw [List.getElem?_append_left hi] at hl
          exact h.slots i name l hl
        · -- the new slot, which nobody holds
          obtain rfl : l = Rwlock.free := by
            rw [List.getElem?_append_right hi] at hl
            have := List.mem_singleton.mp (List.mem_of_getElem? hl)
            exact (Prod.mk.inj this).2
          exact Rwlock.exact_free.congr fun u => slotMode_of_le (h.fits u) hi
      · exact h.slots i name l hl
    · rw [(hslots _ i).1, (hslots _ i).2]
  fits := fits_moved (fun u s phase hu => (h.fits u s phase hu).registered table) hnow

end Moves

/-! ## The account along a run -/

/-- A step of a statement keeps the account exact. -/
theorem System.Accounted.go {σ : System T} (h : σ.Accounted) {t : T} {s : Statement} {phase : Phase}
    (ht : σ.threads t = some (s, phase)) {locks' : Locks T} {next : Option Phase}
    (hgo : statementStep σ.locks t s phase = some (locks', next)) :
    System.Accounted ⟨locks', Function.update σ.threads t (next.map (s, ·))⟩ := by
  have hfits := h.fits t s phase ht
  cases phase with
  | entering =>
    simp only [statementStep] at hgo
    split_ifs at hgo with hsingle hfree hcreate
    · obtain ⟨rfl, rfl⟩ := Prod.mk.inj (Option.some.inj hgo)
      apply h.moveSingle
      · simp [singleMode, hsingle]
      · intro u hut
        simp [hfree, Ne.symm hut]
      · simp [catalogMode, ht, hsingle]
      · simp [slotMode, ht, hsingle]
      · rintro s' phase ⟨⟩ hon
        exact absurd hsingle (by simp [hon.1])
    · obtain ⟨c, hlock, heq⟩ := Option.map_eq_some_iff.mp hgo
      obtain ⟨rfl, rfl⟩ := Prod.mk.inj heq
      apply h.moveCatalog
      · have := h.catalog.lock (by simp [catalogMode, ht]) hlock
        simpa [catalogMode, hsingle, hcreate] using this
      · simpa [singleMode, ht] using hsingle
      · simp [slotMode, ht, hcreate]
      · rintro s' phase ⟨⟩ hon
        exact absurd hcreate hon.2
    · obtain ⟨c, hlock, heq⟩ := Option.map_eq_some_iff.mp hgo
      obtain ⟨rfl, rfl⟩ := Prod.mk.inj heq
      apply h.moveCatalog
      · have := h.catalog.lock (by simp [catalogMode, ht]) hlock
        simpa [catalogMode] using this
      · simp [singleMode, ht]
      · simp [slotMode, ht]
      · rintro s' phase ⟨⟩
        exact ⟨by simpa using hsingle, hcreate⟩
  | catalogHeld =>
    obtain ⟨rfl, rfl⟩ := Prod.mk.inj (Option.some.inj hgo)
    apply h.moveRegistered
    · simp [singleMode, ht]
    · simp [catalogMode, ht]
    · simp [slotMode, ht]
    · rintro s' phase ⟨⟩
      exact ⟨hfits, slotKnown_registered σ.locks.tables s.short⟩
  | slotFound slot =>
    obtain ⟨l, hlock, heq⟩ := Option.map_eq_some_iff.mp hgo
    obtain ⟨rfl, rfl⟩ := Prod.mk.inj heq
    obtain ⟨⟨hmulti, htype⟩, hknown⟩ := hfits
    have hnow : ∀ s' phase', some (s, Phase.inside) = some (s', phase') →
        PhaseFits σ.locks.tables s' phase' := by
      rintro s' phase' ⟨⟩ -
      rw [← hknown.1]
      exact hknown
    cases slot with
    | none =>
      obtain rfl : l = σ.locks := by simpa [lockSlot, eq_comm] using hlock
      apply h.moveOn
      · simp [singleMode, ht, hmulti]
      · simp [catalogMode, ht, hmulti, htype]
      · simp [slotMode, ht, ← hknown.1]
      · exact hnow
    | some i =>
      simp only [lockSlot, Option.bind_eq_bind, Option.bind_eq_some_iff] at hlock
      obtain ⟨⟨name, l₀⟩, hl, l', hlock, hlocks⟩ := hlock
      obtain rfl := Option.some.inj hlocks
      apply h.moveSlot hl
      · have := (h.slots i name l₀ hl).lock (by simp [slotMode, ht]) hlock
        simpa [slotMode, hmulti, htype, ← hknown.1] using this
      · simp [singleMode, ht, hmulti]
      · simp [catalogMode, ht, hmulti, htype]
      · intro j hj
        simp [slotMode, ht, ← hknown.1, Ne.symm hj]
      · exact hnow
  | inside =>
    simp only [statementStep] at hgo
    split_ifs at hgo with hsingle hcreate
    all_goals obtain ⟨rfl, rfl⟩ := Prod.mk.inj (Option.some.inj hgo)
    · apply h.moveSingle
      · simp [singleMode]
      · intro u hut
        have hown : σ.locks.single = some t := (h.single t).mpr (by simp [singleMode, ht, hsingle])
        simp [hown, Ne.symm hut]
      · simp [catalogMode, ht, hsingle]
      · simp [slotMode, ht, hsingle]
      · simp
    · apply h.moveCatalog
      · have hheld : catalogMode (σ.threads t) = some true := by
          simp [catalogMode, ht, hsingle, hcreate]
        exact h.catalog.unlock hheld
      · simpa [singleMode, ht] using hsingle
      · simp [slotMode, ht, hcreate]
      · simp
    · have hon : s.OnTable := ⟨by simpa using hsingle, hcreate⟩
      apply h.moveOn
      · simpa [singleMode, ht] using hsingle
      · simp [catalogMode, ht, hsingle, hcreate]
      · simp [slotMode, ht, hsingle, hcreate]
      · rintro s' phase ⟨⟩
        exact ⟨hon, hfits hon⟩
  | releasing slot =>
    obtain ⟨rfl, rfl⟩ := Prod.mk.inj (Option.some.inj hgo)
    obtain ⟨hon, hknown⟩ := hfits
    have hnow : ∀ s' phase', some (s, Phase.tableReleased) = some (s', phase') →
        PhaseFits σ.locks.tables s' phase' := by
      rintro s' phase' ⟨⟩
      exact hon
    cases slot with
    | none =>
      apply h.moveOn
      · simp [singleMode, ht]
      · simp [catalogMode, ht]
      · simp [slotMode, ht]
      · exact hnow
    | some i =>
      have hlt := registryFindLocked_lt hknown.1.symm
      obtain ⟨⟨name, l⟩, hl⟩ : ∃ e, σ.locks.tables[i]? = some e :=
        ⟨_, List.getElem?_eq_getElem hlt⟩
      have hunlock : unlockSlot σ.locks t (some i) =
          { σ.locks with tables := σ.locks.tables.set i (name, l.unlock t) } := by
        simp [unlockSlot, hl]
      rw [hunlock]
      apply h.moveSlot hl
      · have hheld : slotMode σ.locks.tables i (σ.threads t) = some (decide (s.type ≠ .select)) := by
          simp [slotMode, ht]
        simpa [slotMode] using (h.slots i name l hl).unlock hheld
      · simp [singleMode, ht]
      · simp [catalogMode, ht]
      · intro j hj
        simp [slotMode, ht, Ne.symm hj]
      · exact hnow
  | tableReleased =>
    obtain ⟨rfl, rfl⟩ := Prod.mk.inj (Option.some.inj hgo)
    apply h.moveCatalog
    · have hheld : catalogMode (σ.threads t) = some false := by simp [catalogMode, ht]
      exact h.catalog.unlock hheld
    · simp [singleMode, ht]
    · simp [slotMode, ht]
    · simp

/-- **One step of a thread keeps the account exact.** -/
theorem System.Accounted.step {σ σ' : System T} {e : T × Event} (h : σ.Accounted)
    (hstep : σ.step e = some σ') : σ'.Accounted := by
  obtain ⟨t, event⟩ := e
  cases event with
  | call s =>
    simp only [System.step] at hstep
    split_ifs at hstep with hidle
    obtain rfl := Option.some.inj hstep
    have hnone : σ.threads t = none := by simpa using hidle
    apply h.moveOn
    · simp [singleMode, hnone]
    · simp [catalogMode, hnone]
    · simp [slotMode, hnone]
    · rintro s' phase ⟨⟩
      trivial
  | go =>
    simp only [System.step] at hstep
    cases ht : σ.threads t with
    | none => simp [ht] at hstep
    | some p =>
      rw [ht] at hstep
      obtain ⟨⟨locks', next⟩, hgo, rfl⟩ := Option.map_eq_some_iff.mp hstep
      exact h.go ht hgo

/-! ## A thread that waits waits for one that can go on -/

/-- The thread can take the next step of its statement. -/
def System.CanGo (σ : System T) (t : T) : Prop := (σ.step (t, .go)).isSome

theorem canGo_of_step {σ : System T} {t : T} {s : Statement} {phase : Phase}
    (ht : σ.threads t = some (s, phase)) (h : (statementStep σ.locks t s phase).isSome) :
    σ.CanGo t := by
  simp only [System.CanGo, System.step, ht, Option.isSome_map, h]

/-- Nothing keeps a thread that is past its locks. -/
theorem canGo_inside {σ : System T} {t : T} {s : Statement}
    (ht : σ.threads t = some (s, .inside)) : σ.CanGo t := by
  apply canGo_of_step ht
  simp only [statementStep]
  split_ifs <;> rfl

theorem canGo_of_slotMode {σ : System T} {u : T} {i : ℕ} {write : Bool}
    (h : slotMode σ.locks.tables i (σ.threads u) = some write) : σ.CanGo u := by
  cases hu : σ.threads u with
  | none => simp [hu, slotMode] at h
  | some p =>
    obtain ⟨s, phase⟩ := p
    cases phase with
    | inside => exact canGo_inside hu
    | releasing slot => exact canGo_of_step hu rfl
    | entering | catalogHeld | slotFound slot | tableReleased => simp [hu, slotMode] at h

/-- Who waits for the lock in a slot waits for a thread that can go on. -/
theorem System.Accounted.canGo_slotFound {σ : System T} (h : σ.Accounted) {t : T} {s : Statement}
    {slot : Option ℕ} (ht : σ.threads t = some (s, .slotFound slot)) : ∃ u, σ.CanGo u := by
  cases slot with
  | none => exact ⟨t, canGo_of_step ht rfl⟩
  | some i =>
    have hknown : SlotKnown σ.locks.tables s.table (some i) := (h.fits t s _ ht).2
    have hlt := registryFindLocked_lt hknown.1.symm
    obtain ⟨⟨name, l⟩, hl⟩ : ∃ e, σ.locks.tables[i]? = some e :=
      ⟨_, List.getElem?_eq_getElem hlt⟩
    cases hlock : l.lock (s.type ≠ .select) t with
    | some l' =>
      refine ⟨t, canGo_of_step ht ?_⟩
      simp only [statementStep, lockSlot, hl, Option.bind_eq_bind, Option.bind_some, hlock]
      rfl
    | none =>
      obtain ⟨u, write, hu⟩ := (h.slots i name l hl).holder hlock
      exact ⟨u, canGo_of_slotMode hu⟩

/-- Who waits for the catalog waits for a thread that can go on or that waits for a slot. -/
theorem System.Accounted.canGo_of_catalogMode {σ : System T} (h : σ.Accounted) {u : T}
    {write : Bool} (hu : catalogMode (σ.threads u) = some write) : ∃ v, σ.CanGo v := by
  cases hu' : σ.threads u with
  | none => simp [hu', catalogMode] at hu
  | some p =>
    obtain ⟨s, phase⟩ := p
    cases phase with
    | entering => simp [hu', catalogMode] at hu
    | slotFound slot => exact h.canGo_slotFound hu'
    | inside => exact ⟨u, canGo_inside hu'⟩
    | catalogHeld | releasing slot | tableReleased => exact ⟨u, canGo_of_step hu' rfl⟩

/-- As long as a thread is in a statement, some thread can go on. -/
theorem System.Accounted.exists_canGo {σ : System T} (h : σ.Accounted) {t : T} {s : Statement}
    {phase : Phase} (ht : σ.threads t = some (s, phase)) : ∃ u, σ.CanGo u := by
  cases phase with
  | entering =>
    by_cases hsingle : s.single
    · cases hown : σ.locks.single with
      | none =>
        refine ⟨t, canGo_of_step ht ?_⟩
        simp [statementStep, hsingle, hown]
      | some u =>
        have hu := (h.single u).mp hown
        cases hu' : σ.threads u with
        | none => simp [hu', singleMode] at hu
        | some p =>
          obtain ⟨s', phase⟩ := p
          cases phase with
          | inside => exact ⟨u, canGo_inside hu'⟩
          | entering | catalogHeld | slotFound slot | releasing slot | tableReleased =>
            simp [hu', singleMode] at hu
    · cases hlock : σ.locks.catalog.lock (s.type = .create) t with
      | none =>
        obtain ⟨u, write, hu⟩ := h.catalog.holder hlock
        exact h.canGo_of_catalogMode hu
      | some c =>
        refine ⟨t, canGo_of_step ht ?_⟩
        by_cases hcreate : s.type = .create
        · rw [decide_eq_true hcreate] at hlock
          simp [statementStep, hsingle, hcreate, hlock]
        · rw [decide_eq_false hcreate] at hlock
          simp [statementStep, hsingle, hcreate, hlock]
  | slotFound slot => exact h.canGo_slotFound ht
  | inside => exact ⟨t, canGo_inside ht⟩
  | catalogHeld | releasing slot | tableReleased => exact ⟨t, canGo_of_step ht rfl⟩

/-! ## Where no thread can go on -/

/-- No thread is in a statement and nobody holds a lock. -/
structure System.Quiet (σ : System T) : Prop where
  idle : ∀ t, σ.threads t = none
  single : σ.locks.single = none
  catalog : σ.locks.catalog = .free
  tables : ∀ e ∈ σ.locks.tables, e.2 = Rwlock.free

omit [DecidableEq T] in
/-- Without a statement nothing is held. -/
theorem System.Accounted.quiet {σ : System T} (h : σ.Accounted) (hidle : ∀ t, σ.threads t = none) :
    σ.Quiet where
  idle := hidle
  single := by
    cases hown : σ.locks.single with
    | none => rfl
    | some t =>
      have := (h.single t).mp hown
      simp [hidle, singleMode] at this
  catalog := h.catalog.eq_free fun t => by simp [hidle, catalogMode]
  tables := by
    intro e he
    obtain ⟨i, hi⟩ := List.mem_iff_getElem?.mp he
    exact (h.slots i e.1 e.2 hi).eq_free fun t => by simp [hidle, slotMode]

theorem accounted_of_run {events : List (T × Event)} {σ : System T}
    (hrun : Runs.run System.step System.init events = some σ) : σ.Accounted :=
  Runs.preserves (fun _ _ _ h hstep => h.step hstep) accounted_init hrun

/-- **Where no thread can take a step, whatever the run before, no thread is in a statement and
every lock is free.** -/
theorem stuck_of_run {events : List (T × Event)} {σ : System T}
    (hrun : Runs.run System.step System.init events = some σ)
    (hstuck : ∀ t, σ.step (t, .go) = none) : σ.Quiet := by
  have haccount := accounted_of_run hrun
  apply haccount.quiet
  intro t
  cases ht : σ.threads t with
  | none => rfl
  | some p =>
    obtain ⟨u, hu⟩ := haccount.exists_canGo ht
    simp [System.CanGo, hstuck u] at hu

theorem short_letter : "t".toList.length ≤ 63 := by decide

/-- The first thread is inside with a `DELETE`, the second waits for the slot of the table. -/
def deleteSelect : List (Bool × Event) :=
  [(false, .call ⟨false, .delete, "t".toList, short_letter⟩), (false, .go), (false, .go),
    (false, .go), (true, .call ⟨false, .select, "t".toList, short_letter⟩), (true, .go), (true, .go)]

/-- The first thread goes through to the end, then the second. -/
def deleteSelectEnd : List (Bool × Event) :=
  [(false, .go), (false, .go), (false, .go), (true, .go), (true, .go), (true, .go),
    (true, .go)]

theorem stuck_delete_select :
    ∃ σ, Runs.run System.step System.init (deleteSelect ++ deleteSelectEnd) = some σ ∧
      σ.Quiet := by
  obtain ⟨σ, hrun⟩ : ∃ σ, Runs.run System.step System.init (deleteSelect ++ deleteSelectEnd) =
      some σ := Option.isSome_iff_exists.mp (by decide)
  have hend : ∀ t, ((Runs.run System.step System.init (deleteSelect ++ deleteSelectEnd)).bind
      fun σ => σ.step (t, .go)).isNone := by decide
  refine ⟨σ, hrun, stuck_of_run hrun fun t => ?_⟩
  simpa [hrun] using hend t

/-! ## The steps that are left -/

/-- The steps a thread has still to take, at most. -/
def stepsLeft : Option (Statement × Phase) → ℕ
  | none => 0
  | some (_, .entering) => 6
  | some (_, .catalogHeld) => 5
  | some (_, .slotFound _) => 4
  | some (_, .inside) => 3
  | some (_, .releasing _) => 2
  | some (_, .tableReleased) => 1

/-- Every step brings a statement nearer to its end. -/
theorem stepsLeft_statementStep {locks locks' : Locks T} {t : T} {s : Statement} {phase : Phase}
    {next : Option Phase} (h : statementStep locks t s phase = some (locks', next)) :
    stepsLeft (next.map (s, ·)) + 1 ≤ stepsLeft (some (s, phase)) := by
  cases phase with
  | entering | inside =>
    simp only [statementStep] at h
    split_ifs at h
    all_goals simp only [Option.map_eq_some_iff, Option.some.injEq, Prod.mk.injEq] at h
    all_goals grind [stepsLeft]
  | slotFound slot =>
    obtain ⟨l, -, heq⟩ := Option.map_eq_some_iff.mp h
    obtain ⟨-, rfl⟩ := Prod.mk.inj heq
    simp [stepsLeft]
  | catalogHeld | releasing slot | tableReleased =>
    obtain ⟨-, rfl⟩ := Prod.mk.inj (Option.some.inj h)
    simp [stepsLeft]

/-- The steps that some threads have still to take. -/
def System.owed (σ : System T) (threads : Finset T) : ℕ :=
  ∑ t ∈ threads, stepsLeft (σ.threads t)

theorem System.owed_update {threads : Finset T} {t : T} (ht : t ∈ threads)
    (σ : System T) (locks' : Locks T) (now : Option (Statement × Phase)) :
    System.owed ⟨locks', Function.update σ.threads t now⟩ threads + stepsLeft (σ.threads t) =
      σ.owed threads + stepsLeft now := by
  rw [System.owed, System.owed, ← Finset.add_sum_erase _ _ ht, ← Finset.add_sum_erase _ _ ht]
  have hrest : ∑ u ∈ threads.erase t, stepsLeft (Function.update σ.threads t now u) =
      ∑ u ∈ threads.erase t, stepsLeft (σ.threads u) := by
    apply Finset.sum_congr rfl
    intro u hu
    rw [Function.update_of_ne (Finset.ne_of_mem_erase hu)]
  simp only [Function.update_self, hrest]
  omega

/-- A step of a statement takes one off what is owed. -/
theorem System.owed_go {σ σ' : System T} {t : T} (hstep : σ.step (t, .go) = some σ')
    {threads : Finset T} (ht : t ∈ threads) : σ'.owed threads + 1 ≤ σ.owed threads := by
  simp only [System.step] at hstep
  cases hphase : σ.threads t with
  | none => simp [hphase] at hstep
  | some p =>
    obtain ⟨s, phase⟩ := p
    rw [hphase] at hstep
    obtain ⟨⟨locks', next⟩, hgo, rfl⟩ := Option.map_eq_some_iff.mp hstep
    have hleft := stepsLeft_statementStep hgo
    have howed := σ.owed_update ht locks' (next.map (s, ·))
    rw [hphase] at howed
    change System.owed ⟨locks', Function.update σ.threads t (next.map (s, ·))⟩ threads + 1 ≤ _
    omega

/-- A run pays for its steps with the statements it begins. -/
theorem owed_of_run {events : List (T × Event)} {σ σ' : System T} {threads : Finset T}
    (hthreads : ∀ e ∈ events, e.1 ∈ threads)
    (hrun : Runs.run System.step σ events = some σ') :
    events.length + σ'.owed threads ≤ σ.owed threads + 7 * (calls events).length := by
  induction events generalizing σ with
  | nil =>
    obtain rfl := Option.some.inj hrun
    simp [calls]
  | cons e events ih =>
    obtain ⟨σ₁, hstep, hrest⟩ := Runs.run_cons.mp hrun
    have hih := ih (fun e he => hthreads e (List.mem_cons_of_mem _ he)) hrest
    have ht := hthreads e (List.mem_cons_self ..)
    obtain ⟨t, event⟩ := e
    cases event with
    | call s =>
      simp only [System.step] at hstep
      split_ifs at hstep with hidle
      obtain rfl := Option.some.inj hstep
      have hnone : σ.threads t = none := by simpa using hidle
      have howed := σ.owed_update ht σ.locks (some (s, .entering))
      simp only [hnone, stepsLeft] at howed
      simp only [calls, List.length_cons]
      omega
    | go =>
      have howed := System.owed_go hstep ht
      simp only [calls, List.length_cons]
      omega

/-- Only the threads of a run are in statements. -/
theorem idle_of_run {events : List (T × Event)} {σ σ' : System T} {t : T}
    (ht : ∀ e ∈ events, e.1 ≠ t) (hrun : Runs.run System.step σ events = some σ') :
    σ'.threads t = σ.threads t := by
  induction events generalizing σ with
  | nil =>
    obtain rfl := Option.some.inj hrun
    rfl
  | cons e events ih =>
    obtain ⟨σ₁, hstep, hrest⟩ := Runs.run_cons.mp hrun
    rw [ih (fun e he => ht e (List.mem_cons_of_mem _ he)) hrest]
    have hne : t ≠ e.1 := Ne.symm (ht e (List.mem_cons_self ..))
    obtain ⟨u, event⟩ := e
    cases event with
    | call s =>
      simp only [System.step] at hstep
      split_ifs at hstep
      obtain rfl := Option.some.inj hstep
      exact Function.update_of_ne hne ..
    | go =>
      simp only [System.step] at hstep
      split at hstep
      · simp at hstep
      · obtain ⟨r, -, rfl⟩ := Option.map_eq_some_iff.mp hstep
        exact Function.update_of_ne hne ..

omit [DecidableEq T] in
theorem calls_append (events events' : List (T × Event)) :
    calls (events ++ events') = calls events ++ calls events' := by
  induction events with
  | nil => rfl
  | cons e events ih =>
    obtain ⟨t, event⟩ := e
    cases event <;> simp [calls, ih]

omit [DecidableEq T] in
theorem calls_go {events : List (T × Event)} (h : ∀ e ∈ events, e.2 = .go) : calls events = [] := by
  induction events with
  | nil => rfl
  | cons e events ih =>
    obtain ⟨t, event⟩ := e
    obtain rfl : event = .go := h _ (List.mem_cons_self ..)
    exact ih fun e he => h e (List.mem_cons_of_mem _ he)

/-- The account is exact and only these threads are in statements. -/
structure System.Within (threads : Finset T) (σ : System T) : Prop where
  account : σ.Accounted
  idle : ∀ t, t ∉ threads → σ.threads t = none

/-- Short of the end of all statements some step brings it nearer. -/
theorem System.Within.exists_go {threads : Finset T} (σ : System T) (h : σ.Within threads)
    (hbusy : ¬ ∀ t, σ.threads t = none) :
    ∃ e σ', (e.2 = Event.go ∧ e.1 ∈ threads) ∧ σ.step e = some σ' ∧ σ'.Within threads ∧
      σ'.owed threads < σ.owed threads := by
  obtain ⟨t, ht⟩ := not_forall.mp hbusy
  obtain ⟨⟨s, phase⟩, hp⟩ := Option.ne_none_iff_exists'.mp ht
  obtain ⟨u, hu⟩ := h.account.exists_canGo hp
  obtain ⟨σ', hstep⟩ := Option.isSome_iff_exists.mp hu
  have hmem : u ∈ threads := by
    by_contra hnot
    simp [System.step, h.idle u hnot] at hstep
  refine ⟨(u, .go), σ', ⟨rfl, hmem⟩, hstep, ⟨h.account.step hstep, ?_⟩, System.owed_go hstep hmem⟩
  intro v hv
  have hrun : Runs.run System.step σ [(u, .go)] = some σ' := by simp [Runs.run, hstep]
  rw [idle_of_run _ hrun, h.idle v hv]
  intro e he heq
  obtain rfl := List.mem_singleton.mp he
  exact hv (heq ▸ hmem)

/-- **Every run can be carried on, with no new statement and seven events for each one begun at
most, to where all statements have ended and every lock is free.** -/
theorem drain_of_run {events : List (T × Event)} {σ : System T}
    (hrun : Runs.run System.step System.init events = some σ) :
    ∃ more σ', (∀ e ∈ more, e.2 = .go) ∧
      (events ++ more).length ≤ 7 * (calls events).length ∧
      Runs.run System.step System.init (events ++ more) = some σ' ∧ σ'.Quiet := by
  let threads : Finset T := (events.map Prod.fst).toFinset
  have hmem : ∀ e ∈ events, e.1 ∈ threads :=
    fun e he => List.mem_toFinset.mpr (List.mem_map_of_mem he)
  have hwithin : σ.Within threads := by
    refine ⟨accounted_of_run hrun, fun t ht => ?_⟩
    rw [idle_of_run _ hrun]
    · rfl
    · intro e he heq
      exact ht (heq ▸ hmem e he)
  obtain ⟨more, σ', hmeets, -, hrun', hwithin', hidle⟩ :=
    Runs.exists_run_to (fun σ => σ.owed threads) System.Within.exists_go hwithin
  have hmore : ∀ e ∈ more, e.2 = .go ∧ e.1 ∈ threads :=
    hmeets.forall_mem (P := fun e => e.2 = .go ∧ e.1 ∈ threads) (fun _ _ => id) hrun'
  have hboth := Runs.run_append.mpr ⟨σ, hrun, hrun'⟩
  have howed : (events ++ more).length + σ'.owed threads ≤
      System.owed (System.init : System T) threads + 7 * (calls (events ++ more)).length := by
    apply owed_of_run _ hboth
    intro e he
    rcases List.mem_append.mp he with he | he
    · exact hmem e he
    · exact (hmore e he).2
  have hinit : System.owed (System.init : System T) threads = 0 := by
    simp [System.owed, System.init, stepsLeft]
  rw [calls_append, calls_go fun e he => (hmore e he).1, List.append_nil] at howed
  exact ⟨more, σ', fun e he => (hmore e he).1, by omega, hboth, hwithin'.account.quiet hidle⟩

theorem drain_delete_select :
    ∃ more σ', (∀ e ∈ more, e.2 = .go) ∧ (deleteSelect ++ more).length ≤ 14 ∧
      Runs.run System.step System.init (deleteSelect ++ more) = some σ' ∧ σ'.Quiet := by
  obtain ⟨σ, hrun⟩ : ∃ σ, Runs.run System.step System.init deleteSelect = some σ :=
    Option.isSome_iff_exists.mp (by decide)
  exact drain_of_run hrun

end MiniSql

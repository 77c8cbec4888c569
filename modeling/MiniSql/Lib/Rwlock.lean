import Mathlib.Data.List.Nodup
import Mathlib.Logic.Function.Basic

/-!
# Read-write locks

A lock that is held by one writer or by any number of readers, with the threads that hold it.
Locking has no result while the thread would have to wait.

## Main results

* `Rwlock.Holds.lock`, `Rwlock.Holds.unlock` — what a thread holds it keeps.
* `Rwlock.Valid.writer_unique` — a writer is alone.
* `Rwlock.Exact.lock`, `Rwlock.Exact.unlock` — the account of who holds the lock stays exact.
* `Rwlock.Exact.holder`, `Rwlock.Exact.eq_free` — a lock that cannot be had has a holder, and one
  without holders is free.
-/

/-- A read-write lock and the threads that hold it. -/
structure Rwlock (T : Type*) where
  readers : List T
  writer : Option T

namespace Rwlock

variable {T : Type*}

/-- Nobody holds the lock. -/
def free : Rwlock T := ⟨[], none⟩

/-- `pthread_rwlock_rdlock`. -/
def rdlock (l : Rwlock T) (t : T) : Option (Rwlock T) :=
  match l.writer with
  | none => some { l with readers := t :: l.readers }
  | some _ => none

/-- `pthread_rwlock_wrlock`. -/
def wrlock (l : Rwlock T) (t : T) : Option (Rwlock T) :=
  match l.writer, l.readers with
  | none, [] => some { l with writer := some t }
  | _, _ => none

/-- Lock for writing or for reading. -/
def lock (l : Rwlock T) (write : Bool) (t : T) : Option (Rwlock T) :=
  if write then l.wrlock t else l.rdlock t

/-- `pthread_rwlock_unlock`: the thread gives up what it holds. -/
def unlock [DecidableEq T] (l : Rwlock T) (t : T) : Rwlock T :=
  if l.writer = some t then { l with writer := none } else { l with readers := l.readers.erase t }

/-- A writer holds the lock alone. -/
def Valid (l : Rwlock T) : Prop := l.writer ≠ none → l.readers = []

/-- A thread holds the lock, for writing or for reading. -/
def Holds (l : Rwlock T) (write : Bool) (t : T) : Prop :=
  if write then l.writer = some t else t ∈ l.readers

theorem valid_free : Valid (free : Rwlock T) := fun _ => rfl

theorem rdlock_eq_some {l l' : Rwlock T} {t : T} :
    l.rdlock t = some l' ↔ l.writer = none ∧ l' = { l with readers := t :: l.readers } := by
  obtain ⟨readers, writer⟩ := l
  cases writer <;> simp [rdlock, eq_comm]

theorem wrlock_eq_some {l l' : Rwlock T} {t : T} :
    l.wrlock t = some l' ↔ l.writer = none ∧ l.readers = [] ∧ l' = { l with writer := some t } := by
  obtain ⟨readers, writer⟩ := l
  cases writer <;> cases readers <;> simp [wrlock, eq_comm]

theorem Valid.lock {l l' : Rwlock T} {write : Bool} {t : T} (h : l.lock write t = some l') :
    Valid l' := by
  cases write with
  | true =>
    obtain ⟨-, hreaders, rfl⟩ := wrlock_eq_some.mp h
    exact fun _ => hreaders
  | false =>
    obtain ⟨hwriter, rfl⟩ := rdlock_eq_some.mp h
    exact fun hne => absurd hwriter hne

theorem Valid.unlock [DecidableEq T] {l : Rwlock T} (h : Valid l) (t : T) : Valid (l.unlock t) := by
  rw [Rwlock.unlock]
  split_ifs with hwriter
  · exact fun hne => absurd rfl hne
  · intro hne
    change l.readers.erase t = []
    rw [h hne]
    rfl

/-- The thread holds what it has just locked. -/
theorem holds_lock {l l' : Rwlock T} {write : Bool} {t : T} (h : l.lock write t = some l') :
    l'.Holds write t := by
  cases write with
  | true =>
    obtain ⟨-, -, rfl⟩ := wrlock_eq_some.mp h
    simp [Holds]
  | false =>
    obtain ⟨-, rfl⟩ := rdlock_eq_some.mp h
    simp [Holds]

/-- What is held stays held when somebody locks. -/
theorem Holds.lock {l l' : Rwlock T} {write write' : Bool} {t u : T} (hu : l.Holds write' u)
    (h : l.lock write t = some l') : l'.Holds write' u := by
  cases write with
  | true =>
    obtain ⟨hwriter, hreaders, rfl⟩ := wrlock_eq_some.mp h
    cases write' with
    | true => exact absurd (hwriter.symm.trans hu) (by simp)
    | false =>
      have hmem : u ∈ l.readers := hu
      rw [hreaders] at hmem
      exact absurd hmem (by simp)
  | false =>
    obtain ⟨-, rfl⟩ := rdlock_eq_some.mp h
    cases write' with
    | true => exact hu
    | false => exact List.mem_cons_of_mem _ hu

/-- What a thread holds stays held when another one unlocks. -/
theorem Holds.unlock [DecidableEq T] {l : Rwlock T} {write : Bool} {t u : T} (hu : l.Holds write u)
    (hne : u ≠ t) : (l.unlock t).Holds write u := by
  rw [Rwlock.unlock]
  cases write with
  | true =>
    have hwriter : l.writer = some u := hu
    rw [if_neg (by rw [hwriter]; simpa using hne)]
    exact hwriter
  | false =>
    split_ifs
    · exact hu
    · exact (List.mem_erase_of_ne hne).mpr hu

/-- **Nobody else holds a lock that is held for writing.** -/
theorem Valid.writer_unique {l : Rwlock T} (h : Valid l) {write : Bool} {t u : T}
    (ht : l.Holds true t) (hu : l.Holds write u) : t = u := by
  have hwriter : l.writer = some t := ht
  cases write with
  | true => exact Option.some.inj (hwriter.symm.trans hu)
  | false =>
    have hmem : u ∈ l.readers := hu
    rw [h (by simp [hwriter])] at hmem
    exact absurd hmem (by simp)

/-! ## An exact account of the holders -/

/-- The lock is held by exactly the threads the account names, in the mode it names, and by each
only once. -/
structure Exact (l : Rwlock T) (mode : T → Option Bool) : Prop where
  nodup : l.readers.Nodup
  holds : ∀ t write, l.Holds write t ↔ mode t = some write

theorem exact_free : Exact (free : Rwlock T) fun _ => none := by
  refine ⟨List.nodup_nil, fun t write => ?_⟩
  cases write <;> simp [Holds, free]

theorem Exact.congr {l : Rwlock T} {mode mode' : T → Option Bool} (h : Exact l mode)
    (heq : ∀ t, mode' t = mode t) : Exact l mode' :=
  ⟨h.nodup, fun t write => by rw [heq t]; exact h.holds t write⟩

/-- A thread that did not hold the lock takes it. -/
theorem Exact.lock [DecidableEq T] {l l' : Rwlock T} {mode : T → Option Bool} (h : Exact l mode)
    {write : Bool} {t : T} (hnone : mode t = none) (hlock : l.lock write t = some l') :
    Exact l' (Function.update mode t (some write)) := by
  have hreader : t ∉ l.readers := by
    intro hmem
    have := (h.holds t false).mp hmem
    simp [hnone] at this
  cases write with
  | true =>
    obtain ⟨hwriter, hreaders, rfl⟩ := wrlock_eq_some.mp hlock
    refine ⟨h.nodup, fun u write => ?_⟩
    have hu := h.holds u write
    by_cases hut : u = t
    · subst hut
      cases write <;> simp [Holds, hreaders]
    · rw [Function.update_of_ne hut, ← hu]
      cases write
      · simp [Holds]
      · simp [Holds, hwriter, Ne.symm hut]
  | false =>
    obtain ⟨hwriter, rfl⟩ := rdlock_eq_some.mp hlock
    refine ⟨List.nodup_cons.mpr ⟨hreader, h.nodup⟩, fun u write => ?_⟩
    have hu := h.holds u write
    by_cases hut : u = t
    · subst hut
      cases write <;> simp [Holds, hwriter]
    · rw [Function.update_of_ne hut, ← hu]
      cases write <;> simp [Holds, hut]

/-- A thread that held the lock gives it up. -/
theorem Exact.unlock [DecidableEq T] {l : Rwlock T} {mode : T → Option Bool} (h : Exact l mode)
    {write : Bool} {t : T} (hheld : mode t = some write) :
    Exact (l.unlock t) (Function.update mode t none) := by
  have hmode : l.Holds write t := (h.holds t write).mpr hheld
  rw [Rwlock.unlock]
  by_cases hwriter : l.writer = some t
  · rw [if_pos hwriter]
    have hwrite : mode t = some true := (h.holds t true).mp hwriter
    refine ⟨h.nodup, fun u write => ?_⟩
    have hu := h.holds u write
    by_cases hut : u = t
    · subst hut
      have hreader : u ∉ l.readers := by
        intro hmem
        have := (h.holds u false).mp hmem
        simp [hwrite] at this
      cases write
      · simpa [Holds] using hreader
      · simp [Holds]
    · rw [Function.update_of_ne hut, ← hu]
      cases write
      · simp [Holds]
      · simp [Holds, hwriter, Ne.symm hut]
  · rw [if_neg hwriter]
    refine ⟨h.nodup.erase t, fun u write => ?_⟩
    have hu := h.holds u write
    by_cases hut : u = t
    · subst hut
      cases write
      · simp [Holds, h.nodup.mem_erase_iff]
      · simpa [Holds] using hwriter
    · rw [Function.update_of_ne hut, ← hu]
      cases write
      · simp [Holds, List.mem_erase_of_ne hut]
      · simp [Holds]

/-- **Somebody holds a lock that cannot be had.** -/
theorem Exact.holder {l : Rwlock T} {mode : T → Option Bool} (h : Exact l mode) {write : Bool}
    {t : T} (hblocked : l.lock write t = none) : ∃ u m, mode u = some m := by
  obtain ⟨readers, writer⟩ := l
  cases writer with
  | some u => exact ⟨u, true, (h.holds u true).mp rfl⟩
  | none =>
    cases readers with
    | cons u readers => exact ⟨u, false, (h.holds u false).mp (List.mem_cons_self ..)⟩
    | nil => cases write <;> simp [Rwlock.lock, rdlock, wrlock] at hblocked

/-- A lock that nobody holds is free. -/
theorem Exact.eq_free {l : Rwlock T} {mode : T → Option Bool} (h : Exact l mode)
    (hnone : ∀ t, mode t = none) : l = free := by
  obtain ⟨readers, writer⟩ := l
  have hwriter : writer = none := by
    cases writer with
    | none => rfl
    | some u =>
      have := (h.holds u true).mp rfl
      simp [hnone] at this
  have hreaders : readers = [] := by
    cases readers with
    | nil => rfl
    | cons u readers =>
      have := (h.holds u false).mp (List.mem_cons_self ..)
      simp [hnone] at this
  rw [hwriter, hreaders]
  rfl

end Rwlock

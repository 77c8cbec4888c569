import MiniSql.Threadpool.Jobs

/-!
# The slots of the pool

A slot is free, or its worker stays, or the worker is marked as retiring; a thread in
`threadpool_join_retired` has the slot then, waits for the worker, and frees it.

## Main definitions

* `LiveOk` — the flags fit the threads, and the staying workers are counted.
* `JoinsOk` — the slots of the threads in `threadpool_join_retired`.
* `Awake` — a worker that stays and does not wait.

## Main results

* `threadpoolExpandLocked_eq`, `threadpoolMarkRetireLocked_eq` — what a resize does.
* `LiveOk.spawn`, `LiveOk.mark`, `LiveOk.clear`, and the same for `JoinsOk`.
* `LiveOk.awake` — nobody waits, so there is a worker for a job.
-/

namespace MiniSql

variable {β : Type*}

/-- A family with one value at all the slots of a list. -/
def override {γ : Type*} (f : Slot → γ) (slots : List Slot) (v : γ) : Slot → γ :=
  fun slot => if slot ∈ slots then v else f slot

section Override

variable {γ : Type*} (f : Slot → γ) (slot : Slot) (slots : List Slot) (v : γ)

theorem override_nil : override f [] v = f := by
  ext slot
  simp [override]

theorem override_cons : override f (slot :: slots) v = override (Function.update f slot v) slots v := by
  ext i
  unfold override
  by_cases hi : i = slot
  · simp [hi]
  · rw [Function.update_of_ne hi]
    simp [hi]

variable {f slot slots v}

theorem override_of_mem (h : slot ∈ slots) : override f slots v slot = v := if_pos h

theorem override_of_notMem (h : slot ∉ slots) : override f slots v slot = f slot := if_neg h

end Override

/-! ## Expanding and marking -/

namespace PoolSystem

variable {s : PoolSystem β}

/-- Threads are made for free slots. -/
def spawnAll (s : PoolSystem β) (slots : List Slot) : PoolSystem β :=
  { s with
    tp := { s.tp with
      workerAlive := override s.tp.workerAlive slots true
      workerRetiring := override s.tp.workerRetiring slots false }
    worker := override s.worker slots .ready }

theorem spawnAll_nil (s : PoolSystem β) : s.spawnAll [] = s := by
  simp only [spawnAll, override_nil]

theorem spawnAll_cons (s : PoolSystem β) (slot : Slot) (slots : List Slot) :
    s.spawnAll (slot :: slots) = (s.spawn slot).spawnAll slots := by
  simp only [spawnAll, spawn, override_cons]

/-- A flag that is not set is cleared. -/
theorem clearFlag_eq {slot : Slot} (h : s.tp.workerRetiring slot = false) :
    { s with
      tp := { s.tp with workerRetiring := Function.update s.tp.workerRetiring slot false } } = s := by
  rw [← h, Function.update_eq_self]

/-- The loop makes threads for some free slots, not more than asked for. -/
theorem expandLoop_eq (creates : Slot → Bool) (newN : ℤ) (slots : List Slot) {added : ℤ}
    (hretiring : ∀ slot, s.tp.workerRetiring slot = true → s.tp.workerAlive slot = true) :
    ∃ new : List Slot, expandLoop creates newN slots added s = (added + new.length, s.spawnAll new) ∧
      new.Nodup ∧ (∀ slot ∈ new, s.tp.workerAlive slot = false) ∧
      (new = [] ∨ s.tp.nWorkers + (added + new.length) ≤ newN) := by
  have hnone : ∀ s : PoolSystem β, ∀ added : ℤ,
      (added, s) = (added + (([] : List Slot).length : ℤ), s.spawnAll []) := by
    intro s added
    rw [spawnAll_nil, List.length_nil, Nat.cast_zero, add_zero]
  induction slots generalizing s added with
  | nil => exact ⟨[], hnone s added, List.nodup_nil, by simp, Or.inl rfl⟩
  | cons slot slots ih =>
    unfold expandLoop
    by_cases hfull : newN ≤ s.tp.nWorkers + added
    · rw [if_pos hfull]
      exact ⟨[], hnone s added, List.nodup_nil, by simp, Or.inl rfl⟩
    rw [if_neg hfull]
    by_cases halive : s.tp.workerAlive slot = true
    · rw [if_pos halive]
      exact ih hretiring
    rw [if_neg halive]
    have hdead : s.tp.workerAlive slot = false := Bool.eq_false_of_not_eq_true halive
    by_cases hcreates : creates slot = true
    · rw [if_pos hcreates]
      have hspawn : ∀ i, (s.spawn slot).tp.workerRetiring i = true →
          (s.spawn slot).tp.workerAlive i = true := by
        intro i hi
        have hne : i ≠ slot := fun heq => by simp [spawn, heq] at hi
        have hi' : s.tp.workerRetiring i = true := by
          simpa [spawn, Function.update_of_ne hne] using hi
        simpa [spawn, Function.update_of_ne hne] using hretiring i hi'
      obtain ⟨new, heq, hnodup, hnew, hmax⟩ := @ih (s.spawn slot) (added + 1) hspawn
      have hdeadNew : ∀ i ∈ new, i ≠ slot ∧ s.tp.workerAlive i = false := by
        intro i hi
        have hi' := hnew i hi
        have hne : i ≠ slot := fun heq => by simp [spawn, heq] at hi'
        exact ⟨hne, by simpa [spawn, Function.update_of_ne hne] using hi'⟩
      refine ⟨slot :: new, ?_, ?_, ?_, Or.inr ?_⟩
      · rw [heq, spawnAll_cons, List.length_cons, Nat.cast_add, Nat.cast_one]
        congr 1
        omega
      · exact List.nodup_cons.mpr ⟨fun hin => (hdeadNew slot hin).1 rfl, hnodup⟩
      · intro i hi
        rcases List.mem_cons.mp hi with rfl | hi
        · exact hdead
        · exact (hdeadNew i hi).2
      · have hn : (s.spawn slot).tp.nWorkers = s.tp.nWorkers := rfl
        rw [List.length_cons, Nat.cast_add, Nat.cast_one]
        rcases hmax with rfl | hmax
        · simp only [List.length_nil, Nat.cast_zero]
          omega
        · omega
    · rw [if_neg hcreates]
      have hflag : s.tp.workerRetiring slot = false := by
        by_contra hne
        exact halive (hretiring slot (Bool.eq_true_of_not_eq_false hne))
      rw [clearFlag_eq hflag]
      exact ⟨[], hnone s added, List.nodup_nil, by simp, Or.inl rfl⟩

/-- **`threadpool_expand_locked` makes threads for some free slots, and counts them.** -/
theorem threadpoolExpandLocked_eq (creates : Slot → Bool) (newN : ℤ)
    (hretiring : ∀ slot, s.tp.workerRetiring slot = true → s.tp.workerAlive slot = true) :
    ∃ new : List Slot, threadpoolExpandLocked creates s newN = ((new.length : ℤ),
        { s.spawnAll new with
          tp := { (s.spawnAll new).tp with nWorkers := s.tp.nWorkers + new.length } }) ∧
      new.Nodup ∧ (∀ slot ∈ new, s.tp.workerAlive slot = false) ∧
      (new = [] ∨ s.tp.nWorkers + new.length ≤ newN) := by
  unfold threadpoolExpandLocked
  dsimp only
  generalize hmax : (if (tpAbsMax : ℤ) < newN then (tpAbsMax : ℤ) else newN) = newN'
  have hle : newN' ≤ newN := by
    rw [← hmax]
    split <;> omega
  by_cases hdone : newN' ≤ s.tp.nWorkers
  · rw [if_pos hdone]
    refine ⟨[], ?_, List.nodup_nil, by simp, Or.inl rfl⟩
    rw [spawnAll_nil, List.length_nil, Nat.cast_zero, add_zero]
  rw [if_neg hdone]
  obtain ⟨new, heq, hnodup, hnew, hnewMax⟩ :=
    @expandLoop_eq β s creates newN' (List.finRange tpAbsMax) 0 hretiring
  rw [zero_add] at heq hnewMax
  refine ⟨new, ?_, hnodup, hnew, hnewMax.imp id fun h => h.trans hle⟩
  rw [heq]
  rfl

/-- The loop marks some workers that stay, not more than asked for. -/
theorem markLoop_eq (nRetire outCap : ℤ) (slots marked : List Slot) (tp : Threadpool β) :
    ∃ new : List Slot, markLoop nRetire outCap slots marked tp
        = (marked ++ new, { tp with workerRetiring := override tp.workerRetiring new true }) ∧
      new.Nodup ∧ (∀ slot ∈ new, tp.workerAlive slot = true ∧ tp.workerRetiring slot = false) ∧
      (new = [] ∨ ((marked.length + new.length : ℕ) : ℤ) ≤ nRetire) := by
  have hnone : ∀ marked : List Slot, ∀ tp : Threadpool β,
      (marked, tp) = (marked ++ [], { tp with workerRetiring := override tp.workerRetiring [] true }) := by
    intro marked tp
    rw [override_nil, List.append_nil]
  induction slots generalizing marked tp with
  | nil => exact ⟨[], hnone marked tp, List.nodup_nil, by simp, Or.inl rfl⟩
  | cons slot slots ih =>
    unfold markLoop
    by_cases hmore : (marked.length : ℤ) < nRetire ∧ (marked.length : ℤ) < outCap
    · rw [if_pos hmore]
      by_cases hstays : tp.workerAlive slot = true ∧ tp.workerRetiring slot = false
      · rw [if_pos hstays]
        obtain ⟨new, heq, hnodup, hnew, hmax⟩ := ih (marked ++ [slot])
          { tp with workerRetiring := Function.update tp.workerRetiring slot true }
        have hnew' : ∀ i ∈ new, i ≠ slot ∧ tp.workerAlive i = true ∧ tp.workerRetiring i = false := by
          intro i hi
          obtain ⟨halive, hretiring⟩ := hnew i hi
          have hne : i ≠ slot := fun heq => by simp [heq] at hretiring
          exact ⟨hne, halive, by simpa [Function.update_of_ne hne] using hretiring⟩
        refine ⟨slot :: new, ?_, ?_, ?_, Or.inr ?_⟩
        · rw [heq, override_cons, List.append_assoc, List.singleton_append]
        · exact List.nodup_cons.mpr ⟨fun hin => (hnew' slot hin).1 rfl, hnodup⟩
        · intro i hi
          rcases List.mem_cons.mp hi with rfl | hi
          · exact hstays
          · exact (hnew' i hi).2
        · rw [List.length_append, List.length_singleton] at hmax
          rw [List.length_cons]
          rcases hmax with rfl | hmax
          · rw [List.length_nil]
            omega
          · omega
      · rw [if_neg hstays]
        exact ih marked tp
    · rw [if_neg hmore]
      exact ⟨[], hnone marked tp, List.nodup_nil, by simp, Or.inl rfl⟩

/-- Workers are marked, and all are woken. -/
def retireAll (s : PoolSystem β) (slots : List Slot) : PoolSystem β :=
  broadcastNonempty { s with
    tp := { s.tp with
      workerRetiring := override s.tp.workerRetiring slots true
      nWorkers := s.tp.nWorkers - slots.length } }

/-- **`threadpool_mark_retire_locked` marks some workers that stay, and does not go below the
floor.** -/
theorem threadpoolMarkRetireLocked_eq (s : PoolSystem β) (newN outCap : ℤ) :
    threadpoolMarkRetireLocked s newN outCap = ([], s) ∨
      ∃ new : List Slot, threadpoolMarkRetireLocked s newN outCap = (new, s.retireAll new) ∧
        new.Nodup ∧
        (∀ slot ∈ new, s.tp.workerAlive slot = true ∧ s.tp.workerRetiring slot = false) ∧
        (new = [] ∨ s.tp.floorWorkers ≤ s.tp.nWorkers - new.length) := by
  unfold threadpoolMarkRetireLocked
  dsimp only
  generalize hmin : (if newN < s.tp.floorWorkers then s.tp.floorWorkers else newN) = newN'
  have hle : s.tp.floorWorkers ≤ newN' := by
    rw [← hmin]
    split <;> omega
  by_cases hdone : s.tp.nWorkers ≤ newN'
  · rw [if_pos hdone]
    exact Or.inl rfl
  rw [if_neg hdone]
  obtain ⟨new, heq, hnodup, hnew, hmax⟩ :=
    markLoop_eq (s.tp.nWorkers - newN') outCap (List.finRange tpAbsMax).reverse [] s.tp
  refine Or.inr ⟨new, ?_, hnodup, hnew, hmax.imp id fun h => ?_⟩
  · rw [heq]
    rfl
  · rw [List.length_nil, zero_add] at h
    omega

end PoolSystem

/-! ## The flags and the threads -/

/-- The worker is on its way to the queue, or has a job. -/
def Worker.isAwake : Worker β → Bool
  | .ready | .taken _ | .running _ | .finished => true
  | _ => false

theorem Worker.wake_eq_absent (w : Worker β) : w.wake = .absent ↔ w = .absent := by
  cases w <;> simp [Worker.wake]

theorem Worker.wake_eq_exited (w : Worker β) : w.wake = .exited ↔ w = .exited := by
  cases w <;> simp [Worker.wake]

theorem Worker.wake_ne_waiting (w : Worker β) : w.wake ≠ .waiting := by
  cases w <;> simp [Worker.wake]

/-- The slots of the workers that stay. -/
def stayingSlots (alive retiring : Slot → Bool) : Finset Slot :=
  Finset.univ.filter fun slot => alive slot = true ∧ retiring slot = false

/-- The flags fit the threads of a pool that is not shut down, and `n` workers stay. -/
structure LiveOk (alive retiring : Slot → Bool) (worker : Slot → Worker β) (n : ℤ) : Prop where
  absent : ∀ slot, worker slot = .absent ↔ alive slot = false
  exited : ∀ slot, worker slot = .exited → retiring slot = true
  aliveOfRetiring : ∀ slot, retiring slot = true → alive slot = true
  waiting : ∀ slot, worker slot = .waiting → retiring slot = false
  count : n = (stayingSlots alive retiring).card

/-- There is a worker that stays and does not wait. -/
def Awake (alive retiring : Slot → Bool) (worker : Slot → Worker β) : Prop :=
  ∃ slot, alive slot = true ∧ retiring slot = false ∧ (worker slot).isAwake = true

/-- A thread in `threadpool_join_retired` has slots of its own, of retiring workers. -/
structure JoinsOk (alive retiring : Slot → Bool) (worker : Slot → Worker β)
    (joiner : Joiner → Joining) : Prop where
  dead : ∀ slot, alive slot = false → worker slot = .absent ∨ worker slot = .exited
  pending : ∀ j, ∀ slot ∈ (joiner j).slots, retiring slot = true
  nodup : ∀ j, (joiner j).slots.Nodup
  disjoint : ∀ j j', j ≠ j' → ∀ slot ∈ (joiner j).slots, slot ∉ (joiner j').slots
  joined : ∀ j, (joiner j).joined = true → ∀ slot, (joiner j).slots.head? = some slot →
    worker slot = .exited

variable {alive retiring : Slot → Bool} {worker : Slot → Worker β} {joiner : Joiner → Joining}
  {n : ℤ} {slot : Slot} {w : Worker β} {new : List Slot}

theorem mem_stayingSlots :
    slot ∈ stayingSlots alive retiring ↔ alive slot = true ∧ retiring slot = false := by
  simp [stayingSlots]

namespace LiveOk

/-- A thread that is there moves. -/
theorem setWorker (h : LiveOk alive retiring worker n) (hold : worker slot ≠ .absent)
    (hw : w ≠ .absent) (hexited : w = .exited → retiring slot = true)
    (hwaiting : w = .waiting → retiring slot = false) :
    LiveOk alive retiring (Function.update worker slot w) n where
  absent := by
    intro i
    by_cases hi : i = slot
    · rw [hi, Function.update_self, ← h.absent slot]
      exact iff_of_false hw hold
    · rw [Function.update_of_ne hi]
      exact h.absent i
  exited := by
    intro i
    by_cases hi : i = slot
    · rw [hi, Function.update_self]
      exact hexited
    · rw [Function.update_of_ne hi]
      exact h.exited i
  aliveOfRetiring := h.aliveOfRetiring
  waiting := by
    intro i
    by_cases hi : i = slot
    · rw [hi, Function.update_self]
      exact hwaiting
    · rw [Function.update_of_ne hi]
      exact h.waiting i
  count := h.count

/-- Threads are made for free slots. -/
theorem spawnAll (h : LiveOk alive retiring worker n) (hnodup : new.Nodup)
    (hnew : ∀ slot ∈ new, alive slot = false) :
    LiveOk (override alive new true) (override retiring new false) (override worker new .ready)
      (n + new.length) where
  absent := by
    intro i
    by_cases hi : i ∈ new
    · rw [override_of_mem hi, override_of_mem hi]
      exact iff_of_false (by simp) (by simp)
    · rw [override_of_notMem hi, override_of_notMem hi]
      exact h.absent i
  exited := by
    intro i
    by_cases hi : i ∈ new
    · rw [override_of_mem hi]
      exact fun heq => absurd heq (by simp)
    · rw [override_of_notMem hi, override_of_notMem hi]
      exact h.exited i
  aliveOfRetiring := by
    intro i
    by_cases hi : i ∈ new
    · rw [override_of_mem hi, override_of_mem hi]
      exact fun _ => rfl
    · rw [override_of_notMem hi, override_of_notMem hi]
      exact h.aliveOfRetiring i
  waiting := by
    intro i
    by_cases hi : i ∈ new
    · rw [override_of_mem hi]
      exact fun heq => absurd heq (by simp)
    · rw [override_of_notMem hi, override_of_notMem hi]
      exact h.waiting i
  count := by
    have hunion : stayingSlots (override alive new true) (override retiring new false)
        = stayingSlots alive retiring ∪ new.toFinset := by
      ext i
      rw [Finset.mem_union, mem_stayingSlots, mem_stayingSlots, List.mem_toFinset]
      by_cases hi : i ∈ new
      · rw [override_of_mem hi, override_of_mem hi]
        exact iff_of_true ⟨rfl, rfl⟩ (Or.inr hi)
      · rw [override_of_notMem hi, override_of_notMem hi]
        exact (or_iff_left hi).symm
    have hdisjoint : Disjoint (stayingSlots alive retiring) new.toFinset := by
      rw [Finset.disjoint_left]
      intro i hi hin
      have hdead := hnew i (List.mem_toFinset.mp hin)
      exact absurd ((mem_stayingSlots.mp hi).1.symm.trans hdead) (by simp)
    rw [hunion, Finset.card_union_of_disjoint hdisjoint, List.toFinset_card_of_nodup hnodup,
      Nat.cast_add, ← h.count]

/-- Workers that stay are marked, and all are woken. -/
theorem mark (h : LiveOk alive retiring worker n) (hnodup : new.Nodup)
    (hnew : ∀ slot ∈ new, alive slot = true ∧ retiring slot = false) :
    LiveOk alive (override retiring new true) (fun slot => (worker slot).wake) (n - new.length) where
  absent := fun i => (worker i).wake_eq_absent.trans (h.absent i)
  exited := by
    intro i hexited
    by_cases hi : i ∈ new
    · exact override_of_mem hi
    · rw [override_of_notMem hi]
      exact h.exited i ((worker i).wake_eq_exited.mp hexited)
  aliveOfRetiring := by
    intro i
    by_cases hi : i ∈ new
    · exact fun _ => (hnew i hi).1
    · rw [override_of_notMem hi]
      exact h.aliveOfRetiring i
  waiting := fun i hwaiting => absurd hwaiting (worker i).wake_ne_waiting
  count := by
    have hsdiff : stayingSlots alive (override retiring new true)
        = stayingSlots alive retiring \ new.toFinset := by
      ext i
      rw [Finset.mem_sdiff, mem_stayingSlots, mem_stayingSlots, List.mem_toFinset]
      by_cases hi : i ∈ new
      · rw [override_of_mem hi]
        exact iff_of_false (by simp) (fun hboth => hboth.2 hi)
      · rw [override_of_notMem hi]
        exact (and_iff_left hi).symm
    have hsub : new.toFinset ⊆ stayingSlots alive retiring := by
      intro i hi
      exact mem_stayingSlots.mpr (hnew i (List.mem_toFinset.mp hi))
    have hcard := Finset.card_sdiff_add_card_eq_card hsub
    have hcount := h.count
    rw [List.toFinset_card_of_nodup hnodup] at hcard
    rw [hsdiff]
    omega

/-- The slot of a retiring worker is freed. -/
theorem clear (h : LiveOk alive retiring worker n) (hretiring : retiring slot = true) :
    LiveOk (Function.update alive slot false) (Function.update retiring slot false)
      (Function.update worker slot .absent) n where
  absent := by
    intro i
    by_cases hi : i = slot
    · rw [hi, Function.update_self, Function.update_self]
      exact iff_of_true rfl rfl
    · rw [Function.update_of_ne hi, Function.update_of_ne hi]
      exact h.absent i
  exited := by
    intro i
    by_cases hi : i = slot
    · rw [hi, Function.update_self]
      exact fun heq => absurd heq (by simp)
    · rw [Function.update_of_ne hi, Function.update_of_ne hi]
      exact h.exited i
  aliveOfRetiring := by
    intro i
    by_cases hi : i = slot
    · rw [hi, Function.update_self, Function.update_self]
      exact id
    · rw [Function.update_of_ne hi, Function.update_of_ne hi]
      exact h.aliveOfRetiring i
  waiting := by
    intro i
    by_cases hi : i = slot
    · rw [hi, Function.update_self]
      exact fun heq => absurd heq (by simp)
    · rw [Function.update_of_ne hi, Function.update_of_ne hi]
      exact h.waiting i
  count := by
    have hsame : stayingSlots (Function.update alive slot false) (Function.update retiring slot false)
        = stayingSlots alive retiring := by
      ext i
      rw [mem_stayingSlots, mem_stayingSlots]
      by_cases hi : i = slot
      · rw [hi, Function.update_self, Function.update_self, hretiring]
        simp
      · rw [Function.update_of_ne hi, Function.update_of_ne hi]
    rw [hsame]
    exact h.count

/-- **Some workers stay and nobody waits, so a worker is on its way to the queue.** -/
theorem awake (h : LiveOk alive retiring worker n) (hn : 0 < n)
    (hwaiting : ∀ slot, worker slot ≠ .waiting) : Awake alive retiring worker := by
  have hcard : 0 < (stayingSlots alive retiring).card := by
    have hcount := h.count
    omega
  obtain ⟨i, hi⟩ := Finset.card_pos.mp hcard
  obtain ⟨halive, hretiring⟩ := mem_stayingSlots.mp hi
  refine ⟨i, halive, hretiring, ?_⟩
  cases hw : worker i with
  | absent => exact absurd ((h.absent i).mp hw) (by simp [halive])
  | exited => exact absurd (h.exited i hw) (by simp [hretiring])
  | waiting => exact absurd hw (hwaiting i)
  | _ => rfl

end LiveOk

namespace Awake

/-- A worker goes on. -/
theorem setWorker (h : Awake alive retiring worker) (hw : w.isAwake = true) :
    Awake alive retiring (Function.update worker slot w) := by
  obtain ⟨i, halive, hretiring, hawake⟩ := h
  refine ⟨i, halive, hretiring, ?_⟩
  by_cases hi : i = slot
  · rwa [hi, Function.update_self]
  · rwa [Function.update_of_ne hi]

/-- A retiring worker moves. -/
theorem setRetiring (h : Awake alive retiring worker) (hslot : retiring slot = true) :
    Awake alive retiring (Function.update worker slot w) := by
  obtain ⟨i, halive, hretiring, hawake⟩ := h
  have hi : i ≠ slot := fun heq => absurd hslot (by simp [← heq, hretiring])
  exact ⟨i, halive, hretiring, by rwa [Function.update_of_ne hi]⟩

theorem spawnAll (h : Awake alive retiring worker) :
    Awake (override alive new true) (override retiring new false) (override worker new .ready) := by
  obtain ⟨i, halive, hretiring, hawake⟩ := h
  refine ⟨i, ?_⟩
  by_cases hi : i ∈ new
  · rw [override_of_mem hi, override_of_mem hi, override_of_mem hi]
    exact ⟨rfl, rfl, rfl⟩
  · rw [override_of_notMem hi, override_of_notMem hi, override_of_notMem hi]
    exact ⟨halive, hretiring, hawake⟩

theorem clear (h : Awake alive retiring worker) (hslot : retiring slot = true) :
    Awake (Function.update alive slot false) (Function.update retiring slot false)
      (Function.update worker slot w) := by
  obtain ⟨i, halive, hretiring, hawake⟩ := h
  have hi : i ≠ slot := fun heq => absurd hslot (by simp [← heq, hretiring])
  refine ⟨i, ?_⟩
  rw [Function.update_of_ne hi, Function.update_of_ne hi, Function.update_of_ne hi]
  exact ⟨halive, hretiring, hawake⟩

end Awake

namespace JoinsOk

/-- A thread moves that is there and has not left. -/
theorem setWorker (h : JoinsOk alive retiring worker joiner) (habsent : worker slot ≠ .absent)
    (hexited : worker slot ≠ .exited) :
    JoinsOk alive retiring (Function.update worker slot w) joiner where
  dead := by
    intro i hi
    have hold := h.dead i hi
    have hne : i ≠ slot := fun heq => (heq ▸ hold).elim habsent hexited
    rwa [Function.update_of_ne hne]
  pending := h.pending
  nodup := h.nodup
  disjoint := h.disjoint
  joined := by
    intro j hj i hi
    have hold := h.joined j hj i hi
    have hne : i ≠ slot := fun heq => hexited (heq ▸ hold)
    rwa [Function.update_of_ne hne]

theorem spawnAll (h : JoinsOk alive retiring worker joiner)
    (hnew : ∀ slot ∈ new, retiring slot = false) :
    JoinsOk (override alive new true) (override retiring new false) (override worker new .ready)
      joiner := by
  have hpending : ∀ j, ∀ slot ∈ (joiner j).slots, slot ∉ new := by
    intro j slot hslot hin
    exact absurd (h.pending j slot hslot) (by simp [hnew slot hin])
  refine ⟨?_, ?_, h.nodup, h.disjoint, ?_⟩
  · intro i hi
    have hin : i ∉ new := fun hin => absurd hi (by simp [override_of_mem hin])
    rw [override_of_notMem hin] at hi ⊢
    exact h.dead i hi
  · intro j i hi
    rw [override_of_notMem (hpending j i hi)]
    exact h.pending j i hi
  · intro j hj i hi
    rw [override_of_notMem (hpending j i (List.mem_of_mem_head? hi))]
    exact h.joined j hj i hi

/-- All wake up. -/
theorem wake (h : JoinsOk alive retiring worker joiner) :
    JoinsOk alive retiring (fun slot => (worker slot).wake) joiner where
  dead := fun i hi =>
    (h.dead i hi).imp (worker i).wake_eq_absent.mpr (worker i).wake_eq_exited.mpr
  pending := h.pending
  nodup := h.nodup
  disjoint := h.disjoint
  joined := fun j hj i hi => (worker i).wake_eq_exited.mpr (h.joined j hj i hi)

theorem mark (h : JoinsOk alive retiring worker joiner) :
    JoinsOk alive (override retiring new true) (fun slot => (worker slot).wake) joiner where
  dead := h.wake.dead
  pending := by
    intro j i hi
    by_cases hin : i ∈ new
    · exact override_of_mem hin
    · rw [override_of_notMem hin]
      exact h.pending j i hi
  nodup := h.nodup
  disjoint := h.disjoint
  joined := h.wake.joined

/-- A thread enters `threadpool_join_retired` with slots that no other one has. -/
theorem enter (h : JoinsOk alive retiring worker joiner) {j : Joiner} {slots : List Slot}
    (hnodup : slots.Nodup) (hretiring : ∀ slot ∈ slots, retiring slot = true)
    (hfree : ∀ j', ∀ slot ∈ slots, slot ∉ (joiner j').slots) :
    JoinsOk alive retiring worker (Function.update joiner j ⟨slots, false⟩) where
  dead := h.dead
  pending := by
    intro j'
    by_cases hj : j' = j
    · rw [hj, Function.update_self]
      exact hretiring
    · rw [Function.update_of_ne hj]
      exact h.pending j'
  nodup := by
    intro j'
    by_cases hj : j' = j
    · rw [hj, Function.update_self]
      exact hnodup
    · rw [Function.update_of_ne hj]
      exact h.nodup j'
  disjoint := by
    intro j₁ j₂ hne slot
    by_cases h₁ : j₁ = j
    · have h₂ : j₂ ≠ j := fun heq => hne (h₁.trans heq.symm)
      rw [h₁, Function.update_self, Function.update_of_ne h₂]
      exact hfree j₂ slot
    · rw [Function.update_of_ne h₁]
      by_cases h₂ : j₂ = j
      · rw [h₂, Function.update_self]
        exact fun hin hslots => hfree j₁ slot hslots hin
      · rw [Function.update_of_ne h₂]
        exact h.disjoint j₁ j₂ hne slot
  joined := by
    intro j'
    by_cases hj : j' = j
    · rw [hj, Function.update_self]
      exact fun heq => absurd heq (by simp)
    · rw [Function.update_of_ne hj]
      exact h.joined j'

/-- The worker of the first slot has left. -/
theorem joinReturns (h : JoinsOk alive retiring worker joiner) {j : Joiner} {slots : List Slot}
    (hj : joiner j = ⟨slot :: slots, false⟩) (hexited : worker slot = .exited) :
    JoinsOk alive retiring worker (Function.update joiner j ⟨slot :: slots, true⟩) := by
  have hslots : ∀ j', (Function.update joiner j ⟨slot :: slots, true⟩ j').slots = (joiner j').slots := by
    intro j'
    by_cases hj' : j' = j
    · rw [hj', Function.update_self, hj]
    · rw [Function.update_of_ne hj']
  refine ⟨h.dead, fun j' => ?_, fun j' => ?_, fun j₁ j₂ hne => ?_, fun j' => ?_⟩
  · rw [hslots]
    exact h.pending j'
  · rw [hslots]
    exact h.nodup j'
  · rw [hslots, hslots]
    exact h.disjoint j₁ j₂ hne
  · by_cases hj' : j' = j
    · rw [hj', Function.update_self]
      intro _ i hi
      rwa [← Option.some.inj hi]
    · rw [Function.update_of_ne hj']
      exact h.joined j'

/-- The first slot is freed. -/
theorem clear (h : JoinsOk alive retiring worker joiner) {j : Joiner} {slots : List Slot}
    {joined : Bool} (hj : joiner j = ⟨slot :: slots, joined⟩) :
    JoinsOk (Function.update alive slot false) (Function.update retiring slot false)
      (Function.update worker slot .absent) (Function.update joiner j ⟨slots, false⟩) := by
  have hmem : slot ∈ (joiner j).slots := by
    rw [hj]
    exact List.mem_cons_self
  have hnodup := h.nodup j
  rw [hj] at hnodup
  obtain ⟨hslot, hrest⟩ := List.nodup_cons.mp hnodup
  have hother : ∀ j', j' ≠ j → ∀ i ∈ (joiner j').slots, i ≠ slot := by
    intro j' hne i hi heq
    exact h.disjoint j j' (Ne.symm hne) slot hmem (heq ▸ hi)
  have hsub : ∀ j', ∀ i ∈ (Function.update joiner j ⟨slots, false⟩ j').slots,
      i ∈ (joiner j').slots ∧ i ≠ slot := by
    intro j' i
    by_cases hj' : j' = j
    · rw [hj', Function.update_self, hj]
      exact fun hi => ⟨List.mem_cons_of_mem _ hi, fun heq => hslot (heq ▸ hi)⟩
    · rw [Function.update_of_ne hj']
      exact fun hi => ⟨hi, hother j' hj' i hi⟩
  refine ⟨fun i => ?_, fun j' i hi => ?_, fun j' => ?_, fun j₁ j₂ hne i hi hi' => ?_, fun j' => ?_⟩
  · by_cases hi : i = slot
    · rw [hi, Function.update_self, Function.update_self]
      exact fun _ => Or.inl rfl
    · rw [Function.update_of_ne hi, Function.update_of_ne hi]
      exact h.dead i
  · obtain ⟨hin, hne⟩ := hsub j' i hi
    rw [Function.update_of_ne hne]
    exact h.pending j' i hin
  · by_cases hj' : j' = j
    · rw [hj', Function.update_self]
      exact hrest
    · rw [Function.update_of_ne hj']
      exact h.nodup j'
  · exact h.disjoint j₁ j₂ hne i (hsub j₁ i hi).1 (hsub j₂ i hi').1
  · by_cases hj' : j' = j
    · rw [hj', Function.update_self]
      exact fun heq => absurd heq (by simp)
    · rw [Function.update_of_ne hj']
      intro hjoined i hi
      rw [Function.update_of_ne (hother j' hj' i (List.mem_of_mem_head? hi))]
      exact h.joined j' hjoined i hi

end JoinsOk

end MiniSql

import Mathlib.Algebra.BigOperators.Fin
import Mathlib.Tactic.Abel
import MiniSql.Threadpool

/-!
# Where the jobs of the pool are

An accepted job is in the queue, or a worker has taken it and not called it, or it is called and
not back, or it is done.

## Main definitions

* `JobsOk` — the queue and the workers have the jobs that are accepted and not done.
* `Quiet` — nothing happens to the jobs.

## Main results

* `JobsOk.submit`, `JobsOk.workerTake`, `JobsOk.workerStart`, `JobsOk.workerReturn`,
  `JobsOk.workerFinish` — what moves a job.
* `JobsOk.completed_perm` — no job is left, so all are done.
-/

namespace MiniSql

variable {β : Type*}

namespace Worker

/-- The job that the worker has and did not call. -/
def takenTicket : Worker β → Multiset ℕ
  | .taken job => {job.ticket}
  | _ => 0

/-- The job that the worker called and that is not back. -/
def runningTicket : Worker β → Multiset ℕ
  | .running job => {job.ticket}
  | _ => 0

/-- The worker is between taking a job and finishing it. -/
def isBusy : Worker β → Bool
  | .taken _ | .running _ | .finished => true
  | _ => false

/-- Workers without a job are alike. -/
def load : Worker β → Worker β
  | .taken job => .taken job
  | .running job => .running job
  | .finished => .finished
  | _ => .absent

theorem takenTicket_load (w : Worker β) : w.load.takenTicket = w.takenTicket := by cases w <;> rfl

theorem runningTicket_load (w : Worker β) : w.load.runningTicket = w.runningTicket := by
  cases w <;> rfl

theorem isBusy_load (w : Worker β) : w.load.isBusy = w.isBusy := by cases w <;> rfl

theorem load_wake (w : Worker β) : w.wake.load = w.load := by cases w <;> rfl

end Worker

/-- The workers with a job. -/
def busySlots (worker : Slot → Worker β) : Finset Slot :=
  Finset.univ.filter fun slot => (worker slot).isBusy

/-- The jobs that are taken and not called. -/
def takenTickets (worker : Slot → Worker β) : Multiset ℕ := ∑ slot, (worker slot).takenTicket

/-- The jobs that are called and not back. -/
def runningTickets (worker : Slot → Worker β) : Multiset ℕ := ∑ slot, (worker slot).runningTicket

/-- A sum over a family of which one member changes. -/
theorem sum_update {ι α M : Type*} [Fintype ι] [DecidableEq ι] [AddCommMonoid M] (g : α → M)
    (f : ι → α) (i : ι) (a : α) :
    ∑ j, g (Function.update f i a j) + g (f i) = ∑ j, g (f j) + g a := by
  have hrest : ∑ j ∈ Finset.univ.erase i, g (Function.update f i a j)
      = ∑ j ∈ Finset.univ.erase i, g (f j) := by
    refine Finset.sum_congr rfl fun j hj => ?_
    rw [Function.update_of_ne (Finset.ne_of_mem_erase hj)]
  rw [← Finset.add_sum_erase Finset.univ (fun j => g (Function.update f i a j)) (Finset.mem_univ i),
    ← Finset.add_sum_erase Finset.univ (fun j => g (f j)) (Finset.mem_univ i), hrest,
    Function.update_self]
  abel

section Update

variable {worker : Slot → Worker β} {slot : Slot} {w : Worker β}

theorem takenTickets_update (worker : Slot → Worker β) (slot : Slot) (w : Worker β) :
    takenTickets (Function.update worker slot w) + (worker slot).takenTicket
      = takenTickets worker + w.takenTicket :=
  sum_update Worker.takenTicket worker slot w

theorem runningTickets_update (worker : Slot → Worker β) (slot : Slot) (w : Worker β) :
    runningTickets (Function.update worker slot w) + (worker slot).runningTicket
      = runningTickets worker + w.runningTicket :=
  sum_update Worker.runningTicket worker slot w

theorem mem_busySlots : slot ∈ busySlots worker ↔ (worker slot).isBusy := by simp [busySlots]

/-- The worker stays with a job, or without one. -/
theorem busySlots_update (h : w.isBusy = (worker slot).isBusy) :
    busySlots (Function.update worker slot w) = busySlots worker := by
  ext i
  rw [mem_busySlots, mem_busySlots]
  by_cases hi : i = slot
  · rw [hi, Function.update_self, h]
  · rw [Function.update_of_ne hi]

theorem busySlots_insert (hw : w.isBusy = true) :
    busySlots (Function.update worker slot w) = insert slot (busySlots worker) := by
  ext i
  rw [Finset.mem_insert, mem_busySlots, mem_busySlots]
  by_cases hi : i = slot
  · rw [hi, Function.update_self]
    exact iff_of_true hw (Or.inl rfl)
  · rw [Function.update_of_ne hi]
    exact (or_iff_right hi).symm

theorem busySlots_erase (hw : w.isBusy = false) :
    busySlots (Function.update worker slot w) = (busySlots worker).erase slot := by
  ext i
  rw [Finset.mem_erase, mem_busySlots, mem_busySlots]
  by_cases hi : i = slot
  · rw [hi, Function.update_self, hw]
    simp
  · rw [Function.update_of_ne hi]
    exact (and_iff_right hi).symm

end Update

/-- The queue and the workers have the jobs that are accepted and not done. -/
structure JobsOk (s : PoolSystem β) : Prop where
  queue : ∃ jobs, s.tp.queue.Holds jobs ∧ s.tp.queueDepth = jobs.length ∧
    s.dequeued ++ jobs.map Job.ticket = List.range s.accepted
  taken : (s.dequeued : Multiset ℕ) = s.started + takenTickets s.worker
  running : (s.started : Multiset ℕ) = s.completed + runningTickets s.worker
  active : s.tp.activeWorkers = (busySlots s.worker).card

/-- The step does nothing to the jobs. -/
structure Quiet (s s' : PoolSystem β) : Prop where
  queue : s'.tp.queue = s.tp.queue
  queueDepth : s'.tp.queueDepth = s.tp.queueDepth
  activeWorkers : s'.tp.activeWorkers = s.tp.activeWorkers
  submitClosed : s.tp.submitClosed = true → s'.tp.submitClosed = true
  accepted : s'.accepted = s.accepted
  dequeued : s'.dequeued = s.dequeued
  started : s'.started = s.started
  completed : s'.completed = s.completed
  load : ∀ slot, (s'.worker slot).load = (s.worker slot).load

namespace Quiet

variable {s s' s'' : PoolSystem β}

theorem refl (s : PoolSystem β) : Quiet s s := ⟨rfl, rfl, rfl, id, rfl, rfl, rfl, rfl, fun _ => rfl⟩

theorem trans (h : Quiet s s') (h' : Quiet s' s'') : Quiet s s'' where
  queue := h'.queue.trans h.queue
  queueDepth := h'.queueDepth.trans h.queueDepth
  activeWorkers := h'.activeWorkers.trans h.activeWorkers
  submitClosed := fun hclosed => h'.submitClosed (h.submitClosed hclosed)
  accepted := h'.accepted.trans h.accepted
  dequeued := h'.dequeued.trans h.dequeued
  started := h'.started.trans h.started
  completed := h'.completed.trans h.completed
  load := fun slot => (h'.load slot).trans (h.load slot)

/-- A worker without a job moves. -/
theorem setWorker {slot : Slot} {w : Worker β} (h : w.load = (s.worker slot).load) :
    Quiet s (s.setWorker slot w) where
  queue := rfl
  queueDepth := rfl
  activeWorkers := rfl
  submitClosed := id
  accepted := rfl
  dequeued := rfl
  started := rfl
  completed := rfl
  load := fun i => by
    show (Function.update s.worker slot w i).load = _
    by_cases hi : i = slot
    · rw [hi, Function.update_self, h]
    · rw [Function.update_of_ne hi]

theorem broadcastNonempty (s : PoolSystem β) : Quiet s s.broadcastNonempty :=
  ⟨rfl, rfl, rfl, id, rfl, rfl, rfl, rfl, fun slot => (s.worker slot).load_wake⟩

end Quiet

namespace JobsOk

variable {s s' : PoolSystem β}

theorem quiet (h : JobsOk s) (hq : Quiet s s') : JobsOk s' where
  queue := by
    rw [hq.queue, hq.queueDepth, hq.dequeued, hq.accepted]
    exact h.queue
  taken := by
    have htickets : takenTickets s'.worker = takenTickets s.worker :=
      Finset.sum_congr rfl fun slot _ => by
        rw [← Worker.takenTicket_load, hq.load, Worker.takenTicket_load]
    rw [hq.dequeued, hq.started, htickets, h.taken]
  running := by
    have htickets : runningTickets s'.worker = runningTickets s.worker :=
      Finset.sum_congr rfl fun slot _ => by
        rw [← Worker.runningTicket_load, hq.load, Worker.runningTicket_load]
    rw [hq.started, hq.completed, htickets, h.running]
  active := by
    have hbusy : busySlots s'.worker = busySlots s.worker := by
      ext slot
      rw [mem_busySlots, mem_busySlots, ← Worker.isBusy_load, hq.load, Worker.isBusy_load]
    rw [hq.activeWorkers, hbusy, h.active]

/-- A job is accepted. -/
theorem submit (h : JobsOk s) {addr : ℕ} (hfree : s.tp.queue.cells addr = none) (body : β) :
    JobsOk { s with
      tp := { s.tp with
        queue := s.tp.queue.enqueue addr ⟨s.accepted, body⟩
        queueDepth := s.tp.queueDepth + 1 }
      accepted := s.accepted + 1 } where
  queue := by
    obtain ⟨jobs, hholds, hdepth, htickets⟩ := h.queue
    refine ⟨jobs ++ [⟨s.accepted, body⟩], hholds.enqueue hfree _, ?_, ?_⟩
    · simp [hdepth]
    · simp [List.range_succ, ← htickets]
  taken := h.taken
  running := h.running
  active := h.active

/-- A worker takes the first job. -/
theorem workerTake (h : JobsOk s) {slot : Slot} (hready : s.worker slot = .ready) {job : Job β}
    {queue : LinkedQueue (Job β)} (hqueue : s.tp.queue.dequeue = some (job, queue)) :
    JobsOk (s.workerTake slot job queue) := by
  rw [PoolSystem.workerTake_eq]
  have htaken := takenTickets_update s.worker slot (.taken job)
  have hrunning := runningTickets_update s.worker slot (.taken job)
  rw [hready] at htaken hrunning
  have hidle : slot ∉ busySlots s.worker := by
    rw [mem_busySlots, hready]
    exact Bool.false_ne_true
  refine ⟨?_, ?_, ?_, ?_⟩
  · obtain ⟨jobs, hholds, hdepth, htickets⟩ := h.queue
    cases jobs with
    | nil =>
      have hnone : s.tp.queue.dequeue = none := by
        rw [LinkedQueue.dequeue, hholds.eq_nil_iff.mp rfl]
      exact absurd (hnone.symm.trans hqueue) (by simp)
    | cons first rest =>
      obtain ⟨queue', hqueue', hrest⟩ := hholds.dequeue
      obtain ⟨rfl, rfl⟩ := Prod.mk.inj (Option.some.inj (hqueue'.symm.trans hqueue))
      refine ⟨rest, hrest, ?_, ?_⟩
      · simp [hdepth]
      · rw [← htickets]
        simp
  · calc ((s.dequeued ++ [job.ticket] : List ℕ) : Multiset ℕ)
        = (s.started + takenTickets s.worker) + {job.ticket} := by
          rw [← Multiset.coe_add, h.taken, Multiset.coe_singleton]
      _ = s.started + takenTickets (Function.update s.worker slot (.taken job)) := by
          rw [add_assoc]
          exact congrArg _ (htaken.symm.trans (add_zero _))
  · refine h.running.trans (congrArg _ ?_)
    exact (add_zero _).symm.trans (hrunning.symm.trans (add_zero _))
  · rw [busySlots_insert rfl, Finset.card_insert_of_notMem hidle, h.active]
    simp

/-- A worker calls its job. -/
theorem workerStart (h : JobsOk s) {slot : Slot} {job : Job β} (hw : s.worker slot = .taken job) :
    JobsOk { s.setWorker slot (.running job) with started := s.started ++ [job.ticket] } := by
  have htaken := takenTickets_update s.worker slot (.running job)
  have hrunning := runningTickets_update s.worker slot (.running job)
  rw [hw] at htaken hrunning
  refine ⟨h.queue, ?_, ?_, ?_⟩
  · calc (s.dequeued : Multiset ℕ)
        = s.started + (takenTickets (Function.update s.worker slot (.running job)) + {job.ticket}) := by
          rw [h.taken]
          exact congrArg _ ((add_zero _).symm.trans htaken.symm)
      _ = ((s.started ++ [job.ticket] : List ℕ) : Multiset ℕ)
          + takenTickets (Function.update s.worker slot (.running job)) := by
          rw [← Multiset.coe_add, Multiset.coe_singleton]
          abel
  · calc ((s.started ++ [job.ticket] : List ℕ) : Multiset ℕ)
        = s.completed + (runningTickets s.worker + {job.ticket}) := by
          rw [← Multiset.coe_add, h.running, Multiset.coe_singleton, add_assoc]
      _ = s.completed + runningTickets (Function.update s.worker slot (.running job)) :=
          congrArg _ (hrunning.symm.trans (add_zero _))
  · exact h.active.trans (congrArg _ (congrArg _ (busySlots_update (by rw [hw]; rfl)).symm))

/-- The call of a job returns. -/
theorem workerReturn (h : JobsOk s) {slot : Slot} {job : Job β} (hw : s.worker slot = .running job) :
    JobsOk { s.setWorker slot .finished with completed := s.completed ++ [job.ticket] } := by
  have htaken := takenTickets_update s.worker slot .finished
  have hrunning := runningTickets_update s.worker slot .finished
  rw [hw] at htaken hrunning
  refine ⟨h.queue, ?_, ?_, ?_⟩
  · refine h.taken.trans (congrArg _ ?_)
    exact (add_zero _).symm.trans (htaken.symm.trans (add_zero _))
  · calc (s.started : Multiset ℕ)
        = s.completed + (runningTickets (Function.update s.worker slot .finished) + {job.ticket}) := by
          rw [h.running]
          exact congrArg _ ((add_zero _).symm.trans hrunning.symm)
      _ = ((s.completed ++ [job.ticket] : List ℕ) : Multiset ℕ)
          + runningTickets (Function.update s.worker slot .finished) := by
          rw [← Multiset.coe_add, Multiset.coe_singleton]
          abel
  · exact h.active.trans (congrArg _ (congrArg _ (busySlots_update (by rw [hw]; rfl)).symm))

/-- A worker is done with its job. -/
theorem workerDone (h : JobsOk s) {slot : Slot} (hw : s.worker slot = .finished) :
    JobsOk (s.workerDone slot) := by
  rw [PoolSystem.workerDone_eq]
  have htaken := takenTickets_update s.worker slot .ready
  have hrunning := runningTickets_update s.worker slot .ready
  rw [hw] at htaken hrunning
  have hbusy : slot ∈ busySlots s.worker := by rw [mem_busySlots, hw]; rfl
  refine ⟨h.queue, ?_, ?_, ?_⟩
  · refine h.taken.trans (congrArg _ ?_)
    exact (add_zero _).symm.trans (htaken.symm.trans (add_zero _))
  · refine h.running.trans (congrArg _ ?_)
    exact (add_zero _).symm.trans (hrunning.symm.trans (add_zero _))
  · have hcard := Finset.card_erase_add_one hbusy
    have hactive := h.active
    show s.tp.activeWorkers - 1 = _
    rw [busySlots_erase rfl]
    omega

/-! ## What follows -/

/-- **Jobs are taken in the order in which they were accepted.** -/
theorem dequeued_eq (h : JobsOk s) : s.dequeued = List.range s.dequeued.length := by
  obtain ⟨jobs, -, -, htickets⟩ := h.queue
  have hlen := congrArg List.length htickets
  rw [List.length_append, List.length_range] at hlen
  have htake := congrArg (List.take s.dequeued.length) htickets
  rw [List.take_left, List.take_range, Nat.min_eq_left (by omega)] at htake
  exact htake

theorem length_dequeued_le (h : JobsOk s) : s.dequeued.length ≤ s.accepted := by
  obtain ⟨jobs, -, -, htickets⟩ := h.queue
  have hlen := congrArg List.length htickets
  rw [List.length_append, List.length_range] at hlen
  omega

/-- **A job is started once at most, and not before it is taken.** -/
theorem started_nodup (h : JobsOk s) : s.started.Nodup ∧ s.started ⊆ s.dequeued := by
  have hle : (s.started : Multiset ℕ) ≤ s.dequeued := by
    rw [h.taken]
    exact Multiset.le_add_right _ _
  have hnodup : s.dequeued.Nodup := by
    rw [h.dequeued_eq]
    exact List.nodup_range
  refine ⟨Multiset.coe_nodup.mp (Multiset.nodup_of_le hle (Multiset.coe_nodup.mpr hnodup)), ?_⟩
  exact Multiset.coe_subset.mp (Multiset.subset_of_le hle)

/-- **No job waits and no worker has one, so all accepted jobs are done, each once.** -/
theorem completed_perm (h : JobsOk s) (hhead : s.tp.queue.head = none)
    (hactive : s.tp.activeWorkers = 0) : s.completed.Perm (List.range s.accepted) := by
  have hidle : ∀ slot, (s.worker slot).isBusy = false := by
    intro slot
    have hempty : busySlots s.worker = ∅ := by
      rw [← Finset.card_eq_zero]
      have hcard := h.active
      omega
    have hnot : slot ∉ busySlots s.worker := by simp [hempty]
    rw [mem_busySlots] at hnot
    exact Bool.eq_false_of_not_eq_true hnot
  have htaken : takenTickets s.worker = 0 := Finset.sum_eq_zero fun slot _ => by
    have hslot := hidle slot
    cases hw : s.worker slot <;> simp [hw, Worker.isBusy] at hslot <;> rfl
  have hrunning : runningTickets s.worker = 0 := Finset.sum_eq_zero fun slot _ => by
    have hslot := hidle slot
    cases hw : s.worker slot <;> simp [hw, Worker.isBusy] at hslot <;> rfl
  obtain ⟨jobs, hholds, -, htickets⟩ := h.queue
  rw [hholds.eq_nil_iff.mpr hhead, List.map_nil, List.append_nil] at htickets
  rw [← htickets]
  apply Multiset.coe_eq_coe.mp
  rw [h.taken, h.running, htaken, hrunning, add_zero, add_zero]

end JobsOk

end MiniSql

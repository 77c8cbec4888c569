import Mathlib.Algebra.GroupWithZero.Nat
import Mathlib.Data.List.FinRange
import MiniSql.Lib.LinkedQueue
import MiniSql.Lib.Runs

/-!
# The pool of worker threads

`threadpool.c`: a queue of jobs, and threads that take them. A resize or the monitor starts
threads, or marks some as retiring, wakes all, and waits for the marked ones outside of the mutex.
A graceful shutdown refuses new jobs and waits until all are done.

Each critical section is one step, and so is the start of a job, its end, and the end of a
`pthread_join`. `cond_nonempty` is the set of the workers that wait on it; a wait may end
without a reason. `cond_queue_empty` has one waiter, the thread that shuts the pool down. Memory
and the threads' stacks are left out, but for the cells of the queue. A worker that a resize is
about to join may be joined by the shutdown as well, which has no defined behaviour in pthreads:
here each of the two goes on as soon as the worker has left.

## Main definitions

* `Threadpool` — `threadpool_t`.
* `PoolSystem` — the pool, where each thread is, and what has happened to the jobs.
* `PoolSystem.step` — a step of a thread or a call.
* `threadpoolCreate` — the pool at the start.
-/

namespace MiniSql

/-- `TP_ABS_MAX`. -/
def tpAbsMax : ℕ := 64

instance : NeZero tpAbsMax := ⟨by decide⟩

/-- `TP_SOFT_MAX`. -/
def tpSoftMax : ℤ := 16

/-- `TP_STEP`. -/
def tpStep : ℤ := 4

def tpHighWaterPct : ℤ := 80
def tpLowWaterPct : ℤ := 30
def tpHighConsecutive : ℤ := 3
def tpLowConsecutive : ℤ := 30
def tpHysteresisSamples : ℤ := 2
def tpQueueMaxDefault : ℤ := 256

/-- A slot for a worker. -/
abbrev Slot := Fin tpAbsMax

/-- `threadpool_job_t`: what it runs, and how many jobs were accepted before it. -/
structure Job (β : Type*) where
  ticket : ℕ
  body : β

variable (β : Type*) in
/-- Where the thread of a slot is. `ready` is in front of the mutex, at the top of the loop or
behind a wait. `taken` has a job, `running` has called it, `finished` is back from the call. -/
inductive Worker
  | absent
  | ready
  | waiting
  | taken (job : Job β)
  | running (job : Job β)
  | finished
  | exited

variable (β : Type*) in
/-- `threadpool_t`. -/
structure Threadpool where
  workerAlive : Slot → Bool
  workerRetiring : Slot → Bool
  nWorkers : ℤ
  floorWorkers : ℤ
  queue : LinkedQueue (Job β)
  queueDepth : ℤ
  queueMax : ℤ
  rejectedTotal : ℕ
  activeWorkers : ℤ
  shutdown : Bool
  submitClosed : Bool
  monitorStarted : Bool
  monitorShouldExit : Bool
  highConsecutive : ℤ
  lowConsecutive : ℤ
  skipSamples : ℤ

/-- The thread in `threadpool_join_retired`: the monitor, or a caller of `threadpool_resize`. -/
inductive Joiner
  | monitor
  | caller (id : ℕ)
  deriving DecidableEq

/-- The slots that it still has to clear, and whether the first thread is joined already. -/
structure Joining where
  slots : List Slot
  joined : Bool

/-- What the shutdown was called for: `threadpool_shutdown` itself, or
`threadpool_shutdown_graceful` with `timed_out`. -/
inductive Shutdown
  | hard
  | graceful (timedOut : Bool)
  deriving DecidableEq

/-- Where the thread is that shuts the pool down. The first `threadpool_stop_monitor` of
`threadpool_shutdown_graceful` has no `Shutdown` yet. -/
inductive Closer
  | idle
  | stopMonitor (next : Option Shutdown)
  | joinMonitor (next : Option Shutdown)
  | drain
  | drainWaiting
  | closing (call : Shutdown)
  | joining (call : Shutdown) (slots : List Slot)
  | returned (call : Shutdown)
  deriving DecidableEq

variable (β : Type*) in
/-- The pool, the threads, and the tickets of the jobs that were accepted, taken from the queue,
started and run to their end. -/
structure PoolSystem where
  tp : Threadpool β
  worker : Slot → Worker β
  joiner : Joiner → Joining
  monitorExited : Bool
  closer : Closer
  accepted : ℕ
  dequeued : List ℕ
  started : List ℕ
  completed : List ℕ

variable {β : Type*}

/-- A waiting worker wakes up. -/
def Worker.wake : Worker β → Worker β
  | .waiting => .ready
  | w => w

/-- The thread that waits for an empty queue wakes up. -/
def Closer.wake : Closer → Closer
  | .drainWaiting => .drain
  | c => c

namespace PoolSystem

def setWorker (s : PoolSystem β) (slot : Slot) (w : Worker β) : PoolSystem β :=
  { s with worker := Function.update s.worker slot w }

/-- `pthread_cond_broadcast(&tp->cond_nonempty)`. -/
def broadcastNonempty (s : PoolSystem β) : PoolSystem β :=
  { s with worker := fun slot => (s.worker slot).wake }

/-- `pthread_cond_broadcast(&tp->cond_queue_empty)`. -/
def broadcastQueueEmpty (s : PoolSystem β) : PoolSystem β := { s with closer := s.closer.wake }

/-- Whether the worker of a slot waits. -/
def isWaiting (s : PoolSystem β) (slot : Slot) : Bool :=
  match s.worker slot with
  | .waiting => true
  | _ => false

/-- `pthread_cond_signal(&tp->cond_nonempty)`: `woken` is the waiter that it wakes, if there is
one. Another choice is not possible. -/
def signalNonempty (s : PoolSystem β) (woken : Option Slot) : Option (PoolSystem β) :=
  match woken with
  | some slot => if s.isWaiting slot then some (s.setWorker slot .ready) else none
  | none => if (List.finRange tpAbsMax).any s.isWaiting then none else some s

theorem isWaiting_iff {s : PoolSystem β} {slot : Slot} :
    s.isWaiting slot = true ↔ s.worker slot = .waiting := by
  unfold isWaiting
  cases s.worker slot <;> simp

theorem signalNonempty_cases {s s' : PoolSystem β} {woken : Option Slot}
    (h : s.signalNonempty woken = some s') :
    (∃ slot, s.worker slot = .waiting ∧ s' = s.setWorker slot .ready) ∨
      (∀ slot, s.worker slot ≠ .waiting) ∧ s' = s := by
  cases woken with
  | some slot =>
    unfold signalNonempty at h
    dsimp only at h
    by_cases hwaiting : s.isWaiting slot = true
    · rw [if_pos hwaiting] at h
      exact Or.inl ⟨slot, isWaiting_iff.mp hwaiting, (Option.some.inj h).symm⟩
    · rw [if_neg hwaiting] at h
      exact absurd h (by simp)
  | none =>
    unfold signalNonempty at h
    dsimp only at h
    by_cases hany : (List.finRange tpAbsMax).any s.isWaiting = true
    · rw [if_pos hany] at h
      exact absurd h (by simp)
    · rw [if_neg hany] at h
      refine Or.inr ⟨fun slot hwaiting => hany ?_, (Option.some.inj h).symm⟩
      exact List.any_eq_true.mpr ⟨slot, List.mem_finRange slot, isWaiting_iff.mpr hwaiting⟩

/-! ## More and fewer workers -/

/-- A thread is made for a slot. -/
def spawn (s : PoolSystem β) (slot : Slot) : PoolSystem β :=
  { s with
    tp := { s.tp with
      workerAlive := Function.update s.tp.workerAlive slot true
      workerRetiring := Function.update s.tp.workerRetiring slot false }
    worker := Function.update s.worker slot .ready }

/-- The loop of `threadpool_expand_locked`, with the threads added so far. `creates` tells for
which slots `pthread_create` succeeds. -/
def expandLoop (creates : Slot → Bool) (newN : ℤ) :
    List Slot → ℤ → PoolSystem β → ℤ × PoolSystem β
  | [], added, s => (added, s)
  | slot :: slots, added, s =>
    if newN ≤ s.tp.nWorkers + added then (added, s)
    else if s.tp.workerAlive slot then expandLoop creates newN slots added s
    else if creates slot then expandLoop creates newN slots (added + 1) (s.spawn slot)
    else (added, { s with
      tp := { s.tp with workerRetiring := Function.update s.tp.workerRetiring slot false } })

/-- `threadpool_expand_locked`. -/
def threadpoolExpandLocked (creates : Slot → Bool) (s : PoolSystem β) (newN : ℤ) :
    ℤ × PoolSystem β :=
  let newN := if (tpAbsMax : ℤ) < newN then (tpAbsMax : ℤ) else newN
  if newN ≤ s.tp.nWorkers then (0, s)
  else
    let (added, s) := expandLoop creates newN (List.finRange tpAbsMax) 0 s
    (added, { s with tp := { s.tp with nWorkers := s.tp.nWorkers + added } })

/-- The loop of `threadpool_mark_retire_locked`, with the slots marked so far. -/
def markLoop (nRetire outCap : ℤ) : List Slot → List Slot → Threadpool β → List Slot × Threadpool β
  | [], marked, tp => (marked, tp)
  | slot :: slots, marked, tp =>
    if (marked.length : ℤ) < nRetire ∧ (marked.length : ℤ) < outCap then
      if tp.workerAlive slot ∧ tp.workerRetiring slot = false then
        markLoop nRetire outCap slots (marked ++ [slot])
          { tp with workerRetiring := Function.update tp.workerRetiring slot true }
      else markLoop nRetire outCap slots marked tp
    else (marked, tp)

/-- `threadpool_mark_retire_locked`. -/
def threadpoolMarkRetireLocked (s : PoolSystem β) (newN outCap : ℤ) : List Slot × PoolSystem β :=
  let newN := if newN < s.tp.floorWorkers then s.tp.floorWorkers else newN
  if s.tp.nWorkers ≤ newN then ([], s)
  else
    let (marked, tp) :=
      markLoop (s.tp.nWorkers - newN) outCap (List.finRange tpAbsMax).reverse [] s.tp
    (marked,
      broadcastNonempty { s with tp := { tp with nWorkers := tp.nWorkers - marked.length } })

/-- The thread goes on to `threadpool_join_retired`. -/
def joinRetired (s : PoolSystem β) (j : Joiner) (slots : List Slot) : PoolSystem β :=
  { s with joiner := Function.update s.joiner j ⟨slots, false⟩ }

/-- `pthread_join` in `threadpool_join_retired` returns. -/
def joinReturns (s : PoolSystem β) (j : Joiner) : Option (PoolSystem β) :=
  match s.joiner j with
  | ⟨slot :: slots, false⟩ =>
    match s.worker slot with
    | .exited => some { s with joiner := Function.update s.joiner j ⟨slot :: slots, true⟩ }
    | _ => none
  | _ => none

theorem joinReturns_cases {s s' : PoolSystem β} {j : Joiner} (h : s.joinReturns j = some s') :
    ∃ slot slots, s.joiner j = ⟨slot :: slots, false⟩ ∧ s.worker slot = .exited ∧
      s' = { s with joiner := Function.update s.joiner j ⟨slot :: slots, true⟩ } := by
  unfold joinReturns at h
  cases hj : s.joiner j with
  | mk slots joined =>
    cases slots with
    | nil => simp [hj] at h
    | cons slot slots =>
      cases joined with
      | true => simp [hj] at h
      | false =>
        simp only [hj] at h
        cases hw : s.worker slot <;> simp only [hw, reduceCtorEq] at h
        exact ⟨slot, slots, rfl, hw, (Option.some.inj h).symm⟩

/-- The critical section of `threadpool_join_retired`. -/
def clearRetired (s : PoolSystem β) (j : Joiner) : Option (PoolSystem β) :=
  match s.joiner j with
  | ⟨slot :: slots, true⟩ =>
    some { s with
      tp := { s.tp with
        workerAlive := Function.update s.tp.workerAlive slot false
        workerRetiring := Function.update s.tp.workerRetiring slot false }
      worker := Function.update s.worker slot .absent
      joiner := Function.update s.joiner j ⟨slots, false⟩ }
  | _ => none

theorem clearRetired_cases {s s' : PoolSystem β} {j : Joiner} (h : s.clearRetired j = some s') :
    ∃ slot slots, s.joiner j = ⟨slot :: slots, true⟩ ∧
      s' = { s with
        tp := { s.tp with
          workerAlive := Function.update s.tp.workerAlive slot false
          workerRetiring := Function.update s.tp.workerRetiring slot false }
        worker := Function.update s.worker slot .absent
        joiner := Function.update s.joiner j ⟨slots, false⟩ } := by
  unfold clearRetired at h
  cases hj : s.joiner j with
  | mk slots joined =>
    cases slots with
    | nil => simp [hj] at h
    | cons slot slots =>
      cases joined with
      | false => simp [hj] at h
      | true =>
        simp only [hj] at h
        exact ⟨slot, slots, rfl, (Option.some.inj h).symm⟩

/-- `threadpool_resize`. -/
def threadpoolResize (s : PoolSystem β) (j : Joiner) (creates : Slot → Bool) (newN : ℤ) :
    PoolSystem β :=
  if newN ≤ 0 then s
  else if s.tp.shutdown ∨ s.tp.submitClosed then s
  else
    let newN := if tpSoftMax < newN then tpSoftMax else newN
    let newN := if newN < s.tp.floorWorkers then s.tp.floorWorkers else newN
    if s.tp.nWorkers < newN then (threadpoolExpandLocked creates s newN).2
    else if newN < s.tp.nWorkers then
      let (slots, s) := threadpoolMarkRetireLocked s newN tpAbsMax
      s.joinRetired j slots
    else s

/-- The critical section of `threadpool_monitor_main`. -/
def monitorSample (s : PoolSystem β) (creates : Slot → Bool) : PoolSystem β :=
  if s.tp.monitorShouldExit ∨ s.tp.shutdown then { s with monitorExited := true }
  else if 0 < s.tp.skipSamples then
    { s with tp := { s.tp with skipSamples := s.tp.skipSamples - 1 } }
  else
    let curN := s.tp.nWorkers
    let utilPct := if 0 < curN then (s.tp.activeWorkers * 100).tdiv curN else 0
    if tpHighWaterPct ≤ utilPct then
      let high := s.tp.highConsecutive + 1
      let s := { s with tp := { s.tp with highConsecutive := high, lowConsecutive := 0 } }
      if tpHighConsecutive ≤ high ∧ curN < tpSoftMax then
        let target := if tpSoftMax < curN + tpStep then tpSoftMax else curN + tpStep
        let s := (threadpoolExpandLocked creates s target).2
        { s with
          tp := { s.tp with skipSamples := tpHysteresisSamples, highConsecutive := 0 } }
      else s
    else if utilPct ≤ tpLowWaterPct then
      let low := s.tp.lowConsecutive + 1
      let s := { s with tp := { s.tp with lowConsecutive := low, highConsecutive := 0 } }
      if tpLowConsecutive ≤ low ∧ s.tp.floorWorkers < curN then
        let target := if curN - tpStep < s.tp.floorWorkers then s.tp.floorWorkers else curN - tpStep
        let (slots, s) := threadpoolMarkRetireLocked s target tpStep
        let s := { s with
          tp := { s.tp with skipSamples := tpHysteresisSamples, lowConsecutive := 0 } }
        s.joinRetired .monitor slots
      else s
    else { s with tp := { s.tp with highConsecutive := 0, lowConsecutive := 0 } }

/-! ## Jobs -/

/-- `threadpool_submit`, and whether it returns 0. The job is stored at the address. -/
def threadpoolSubmit (s : PoolSystem β) (body : β) (addr : ℕ) (woken : Option Slot) :
    Option (Bool × PoolSystem β) :=
  if s.tp.shutdown ∨ s.tp.submitClosed then some (false, s)
  else if 0 < s.tp.queueMax ∧ s.tp.queueMax ≤ s.tp.queueDepth then
    some (false, { s with tp := { s.tp with rejectedTotal := s.tp.rejectedTotal + 1 } })
  else if (s.tp.queue.cells addr).isSome then none
  else
    let tp := { s.tp with
      queue := s.tp.queue.enqueue addr ⟨s.accepted, body⟩
      queueDepth := s.tp.queueDepth + 1 }
    (signalNonempty { s with tp := tp, accepted := s.accepted + 1 } woken).map fun s => (true, s)

/-- An accepted job does not leave more in the queue than allowed. -/
theorem queueDepth_le_of_submit {s s' : PoolSystem β} {body : β} {addr : ℕ} {woken : Option Slot}
    (h : s.threadpoolSubmit body addr woken = some (true, s')) (hpos : 0 < s'.tp.queueMax) :
    s'.tp.queueDepth ≤ s'.tp.queueMax := by
  unfold threadpoolSubmit at h
  by_cases hclosed : s.tp.shutdown = true ∨ s.tp.submitClosed = true
  · simp [if_pos hclosed] at h
  rw [if_neg hclosed] at h
  by_cases hfull : 0 < s.tp.queueMax ∧ s.tp.queueMax ≤ s.tp.queueDepth
  · simp [if_pos hfull] at h
  rw [if_neg hfull] at h
  by_cases hcell : (s.tp.queue.cells addr).isSome = true
  · simp [if_pos hcell] at h
  rw [if_neg hcell] at h
  obtain ⟨t, hsignal, ht⟩ := Option.map_eq_some_iff.mp h
  obtain ⟨-, rfl⟩ := Prod.mk.inj ht
  have htp : t.tp = { s.tp with
      queue := s.tp.queue.enqueue addr ⟨s.accepted, body⟩
      queueDepth := s.tp.queueDepth + 1 } := by
    rcases signalNonempty_cases hsignal with ⟨slot, -, rfl⟩ | ⟨-, rfl⟩ <;> rfl
  rw [htp] at hpos ⊢
  have hless : ¬ s.tp.queueMax ≤ s.tp.queueDepth := fun hle => hfull ⟨hpos, hle⟩
  show s.tp.queueDepth + 1 ≤ s.tp.queueMax
  omega

/-- The worker takes the first job; `queue` is left. -/
def workerTake (s : PoolSystem β) (slot : Slot) (job : Job β) (queue : LinkedQueue (Job β)) :
    PoolSystem β :=
  let tp : Threadpool β := { s.tp with
    queue := queue
    queueDepth := s.tp.queueDepth - 1
    activeWorkers := s.tp.activeWorkers + 1 }
  let s := { s with tp := tp, dequeued := s.dequeued ++ [job.ticket] }
  let s := if tp.queueDepth = 0 then s.broadcastQueueEmpty else s
  s.setWorker slot (.taken job)

theorem workerTake_eq (s : PoolSystem β) (slot : Slot) (job : Job β) (queue : LinkedQueue (Job β)) :
    s.workerTake slot job queue = { s with
      tp := { s.tp with
        queue := queue
        queueDepth := s.tp.queueDepth - 1
        activeWorkers := s.tp.activeWorkers + 1 }
      dequeued := s.dequeued ++ [job.ticket]
      worker := Function.update s.worker slot (.taken job)
      closer := if s.tp.queueDepth - 1 = 0 then s.closer.wake else s.closer } := by
  by_cases h : s.tp.queueDepth - 1 = 0
  · simp only [workerTake, if_pos h, setWorker, broadcastQueueEmpty]
  · simp only [workerTake, if_neg h, setWorker]

/-- The first critical section of `threadpool_worker_main`: wait, exit, or take a job. -/
def workerLook (s : PoolSystem β) (slot : Slot) : Option (PoolSystem β) :=
  match s.worker slot with
  | .ready =>
    if s.tp.queue.head = none ∧ s.tp.shutdown = false ∧ s.tp.workerRetiring slot = false then
      some (s.setWorker slot .waiting)
    else if s.tp.shutdown ∨ s.tp.workerRetiring slot then some (s.setWorker slot .exited)
    else s.tp.queue.dequeue.map fun (job, queue) => s.workerTake slot job queue
  | _ => none

/-- What a worker does that looks at the queue. -/
theorem workerLook_cases {s s' : PoolSystem β} {slot : Slot} (h : s.workerLook slot = some s') :
    s.worker slot = .ready ∧
      ((s.tp.queue.head = none ∧ s.tp.shutdown = false ∧ s.tp.workerRetiring slot = false ∧
          s' = s.setWorker slot .waiting) ∨
        ((s.tp.shutdown = true ∨ s.tp.workerRetiring slot = true) ∧
          s' = s.setWorker slot .exited) ∨
        s.tp.shutdown = false ∧ s.tp.workerRetiring slot = false ∧
          ∃ job queue, s.tp.queue.dequeue = some (job, queue) ∧
            s' = s.workerTake slot job queue) := by
  unfold workerLook at h
  cases hw : s.worker slot <;> simp only [hw, reduceCtorEq] at h
  refine ⟨rfl, ?_⟩
  by_cases hwait : s.tp.queue.head = none ∧ s.tp.shutdown = false ∧ s.tp.workerRetiring slot = false
  · rw [if_pos hwait] at h
    exact Or.inl ⟨hwait.1, hwait.2.1, hwait.2.2, (Option.some.inj h).symm⟩
  rw [if_neg hwait] at h
  by_cases hexit : s.tp.shutdown = true ∨ s.tp.workerRetiring slot = true
  · rw [if_pos hexit] at h
    exact Or.inr (Or.inl ⟨hexit, (Option.some.inj h).symm⟩)
  rw [if_neg hexit] at h
  obtain ⟨⟨job, queue⟩, hqueue, htake⟩ := Option.map_eq_some_iff.mp h
  obtain ⟨hshut, hretiring⟩ := not_or.mp hexit
  exact Or.inr (Or.inr ⟨Bool.eq_false_of_not_eq_true hshut, Bool.eq_false_of_not_eq_true hretiring,
    job, queue, hqueue, htake.symm⟩)

/-- The worker calls its job. -/
def workerStart (s : PoolSystem β) (slot : Slot) : Option (PoolSystem β) :=
  match s.worker slot with
  | .taken job => some { s.setWorker slot (.running job) with started := s.started ++ [job.ticket] }
  | _ => none

theorem workerStart_cases {s s' : PoolSystem β} {slot : Slot} (h : s.workerStart slot = some s') :
    ∃ job, s.worker slot = .taken job ∧
      s' = { s.setWorker slot (.running job) with started := s.started ++ [job.ticket] } := by
  unfold workerStart at h
  cases hw : s.worker slot with
  | taken job =>
    simp only [hw] at h
    exact ⟨job, rfl, (Option.some.inj h).symm⟩
  | _ => simp [hw] at h

/-- The call returns. -/
def workerReturn (s : PoolSystem β) (slot : Slot) : Option (PoolSystem β) :=
  match s.worker slot with
  | .running job => some { s.setWorker slot .finished with completed := s.completed ++ [job.ticket] }
  | _ => none

theorem workerReturn_cases {s s' : PoolSystem β} {slot : Slot} (h : s.workerReturn slot = some s') :
    ∃ job, s.worker slot = .running job ∧
      s' = { s.setWorker slot .finished with completed := s.completed ++ [job.ticket] } := by
  unfold workerReturn at h
  cases hw : s.worker slot with
  | running job =>
    simp only [hw] at h
    exact ⟨job, rfl, (Option.some.inj h).symm⟩
  | _ => simp [hw] at h

/-- The worker is done with its job. -/
def workerDone (s : PoolSystem β) (slot : Slot) : PoolSystem β :=
  let tp : Threadpool β := { s.tp with activeWorkers := s.tp.activeWorkers - 1 }
  let s := { s with tp := tp }
  let s := if tp.queueDepth = 0 ∧ tp.activeWorkers = 0 then s.broadcastQueueEmpty else s
  s.setWorker slot .ready

theorem workerDone_eq (s : PoolSystem β) (slot : Slot) :
    s.workerDone slot = { s with
      tp := { s.tp with activeWorkers := s.tp.activeWorkers - 1 }
      worker := Function.update s.worker slot .ready
      closer :=
        if s.tp.queueDepth = 0 ∧ s.tp.activeWorkers - 1 = 0 then s.closer.wake else s.closer } := by
  by_cases h : s.tp.queueDepth = 0 ∧ s.tp.activeWorkers - 1 = 0
  · simp only [workerDone, if_pos h, setWorker, broadcastQueueEmpty]
  · simp only [workerDone, if_neg h, setWorker]

/-- The second critical section of `threadpool_worker_main`. -/
def workerFinish (s : PoolSystem β) (slot : Slot) : Option (PoolSystem β) :=
  match s.worker slot with
  | .finished => some (s.workerDone slot)
  | _ => none

theorem workerFinish_cases {s s' : PoolSystem β} {slot : Slot} (h : s.workerFinish slot = some s') :
    s.worker slot = .finished ∧ s' = s.workerDone slot := by
  unfold workerFinish at h
  cases hw : s.worker slot with
  | finished =>
    simp only [hw] at h
    exact ⟨rfl, (Option.some.inj h).symm⟩
  | _ => simp [hw] at h

/-- A wait on `cond_nonempty` ends without a reason. -/
def workerWake (s : PoolSystem β) (slot : Slot) : Option (PoolSystem β) :=
  if s.isWaiting slot then some (s.setWorker slot .ready) else none

/-- `threadpool_set_queue_max`. -/
def threadpoolSetQueueMax (s : PoolSystem β) (max : ℤ) : PoolSystem β :=
  if max < 0 then s else { s with tp := { s.tp with queueMax := max } }

/-! ## The end -/

/-- Behind `threadpool_stop_monitor`. -/
def monitorStopped : Option Shutdown → Closer
  | none => .drain
  | some call => .closing call

/-- The next step of the thread that shuts the pool down; none while it has to wait. -/
def closerStep (s : PoolSystem β) : Option (PoolSystem β) :=
  match s.closer with
  | .idle => none
  | .stopMonitor next =>
    if s.tp.monitorStarted then
      some { s with tp := { s.tp with monitorShouldExit := true }, closer := .joinMonitor next }
    else some { s with closer := monitorStopped next }
  | .joinMonitor next =>
    if s.monitorExited then
      some { s with tp := { s.tp with monitorStarted := false }, closer := monitorStopped next }
    else none
  | .drain =>
    if 0 < s.tp.queueDepth ∨ 0 < s.tp.activeWorkers then some { s with closer := .drainWaiting }
    else some { s with closer := .stopMonitor (some (.graceful false)) }
  | .drainWaiting => some { s with closer := .drain }
  | .closing call =>
    some (broadcastNonempty { s with
      tp := { s.tp with shutdown := true }
      closer := .joining call (List.finRange tpAbsMax) })
  | .joining call [] => some { s with closer := .returned call }
  | .joining call (slot :: slots) =>
    if s.tp.workerAlive slot then
      match s.worker slot with
      | .exited => some { s with
          tp := { s.tp with workerAlive := Function.update s.tp.workerAlive slot false }
          closer := .joining call slots }
      | _ => none
    else some { s with closer := .joining call slots }
  | .returned _ => none

/-- `pthread_cond_timedwait` on `cond_queue_empty` runs out of time. -/
def drainTimeout (s : PoolSystem β) : Option (PoolSystem β) :=
  match s.closer with
  | .drainWaiting => some { s with closer := .stopMonitor (some (.graceful true)) }
  | _ => none

/-! ## Steps -/

variable (β) in
/-- A step of a thread, or a call. -/
inductive Action
  | submit (body : β) (addr : ℕ) (woken : Option Slot)
  | look (slot : Slot)
  | start (slot : Slot)
  | return (slot : Slot)
  | finish (slot : Slot)
  | wake (slot : Slot)
  | resize (caller : ℕ) (creates : Slot → Bool) (newN : ℤ)
  | sample (creates : Slot → Bool)
  | join (j : Joiner)
  | clear (j : Joiner)
  | setQueueMax (max : ℤ)
  | shutdown
  | shutdownGraceful
  | close
  | timeout

/-- Whether the thread is not in `threadpool_join_retired`. -/
def isFree (s : PoolSystem β) (j : Joiner) : Bool := (s.joiner j).slots = []

/-- What the step does to a pool that is not freed. -/
def act (s : PoolSystem β) : Action β → Option (PoolSystem β)
  | .submit body addr woken => (s.threadpoolSubmit body addr woken).map Prod.snd
  | .look slot => s.workerLook slot
  | .start slot => s.workerStart slot
  | .return slot => s.workerReturn slot
  | .finish slot => s.workerFinish slot
  | .wake slot => s.workerWake slot
  | .resize id creates newN =>
    if s.isFree (.caller id) then some (s.threadpoolResize (.caller id) creates newN) else none
  | .sample creates =>
    if s.isFree .monitor ∧ s.monitorExited = false then some (s.monitorSample creates) else none
  | .join j => s.joinReturns j
  | .clear j => s.clearRetired j
  | .setQueueMax max => some (s.threadpoolSetQueueMax max)
  | .shutdown => if s.closer = .idle then some { s with closer := .stopMonitor (some .hard) } else none
  | .shutdownGraceful =>
    if s.closer = .idle then
      some { s with tp := { s.tp with submitClosed := true }, closer := .stopMonitor none }
    else none
  | .close => s.closerStep
  | .timeout => s.drainTimeout

/-- The pool is freed. -/
def isFreed (s : PoolSystem β) : Bool :=
  match s.closer with
  | .returned _ => true
  | _ => false

/-- A step. A freed pool takes none. -/
def step (s : PoolSystem β) (a : Action β) : Option (PoolSystem β) :=
  if s.isFreed then none else s.act a

end PoolSystem

/-- The pool of `threadpool_create` before its workers are started. -/
def threadpoolInit (n : ℤ) : PoolSystem β where
  tp := {
    workerAlive := fun _ => false
    workerRetiring := fun _ => false
    nWorkers := 0
    floorWorkers := n
    queue := .empty
    queueDepth := 0
    queueMax := tpQueueMaxDefault
    rejectedTotal := 0
    activeWorkers := 0
    shutdown := false
    submitClosed := false
    monitorStarted := false
    monitorShouldExit := false
    highConsecutive := 0
    lowConsecutive := 0
    skipSamples := 0 }
  worker := fun _ => .absent
  joiner := fun _ => ⟨[], false⟩
  monitorExited := false
  closer := .idle
  accepted := 0
  dequeued := []
  started := []
  completed := []

/-- `threadpool_create`; `monitorCreated` tells whether the thread of the monitor is made. -/
def threadpoolCreate (creates : Slot → Bool) (monitorCreated : Bool) (n : ℤ) :
    Option (PoolSystem β) :=
  if n ≤ 0 ∨ tpAbsMax < n then none
  else
    let (added, s) := PoolSystem.threadpoolExpandLocked creates (threadpoolInit n) n
    if added ≠ n ∨ monitorCreated = false then none
    else some { s with tp := { s.tp with monitorStarted := true } }

end MiniSql

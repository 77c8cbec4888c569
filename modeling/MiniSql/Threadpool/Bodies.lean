import Mathlib.Algebra.Order.BigOperators.Group.Finset
import MiniSql.Threadpool.Runs

/-!
# Where the jobs are

A job is in the queue, then a worker has it, and no two have the same one. All steps but five leave
the jobs where they are, and only two change which there are: a submit that is accepted, and the
return of a call.

## Main definitions

* `Worker.job`, `PoolSystem.Queued` — a job that a worker has, or that is in the queue.
* `JobStep` — what a step does to the jobs.
* `Carries` — no job comes and none goes.

## Main results

* `jobStep_of_step` — every step does one of these.
* `carries_of_step` — which steps leave the jobs that there are.
* `JobsOk.unique` — a worker has a job that no other one has.
-/

namespace MiniSql

variable {β : Type*}

/-- The job that a worker has. -/
def Worker.job : Worker β → Option (Job β)
  | .taken job | .running job => some job
  | _ => none

theorem Worker.job_eq_of_load {w w' : Worker β} (h : w'.load = w.load) : w'.job = w.job := by
  have hjob : ∀ w : Worker β, w.load.job = w.job := by
    intro w
    cases w <;> rfl
  rw [← hjob w', h, hjob w]

theorem Worker.eq_running_of_load {w : Worker β} {job : Job β}
    (h : w.load = (Worker.running job).load) : w = .running job := by
  cases w <;> simp_all [Worker.load]

namespace PoolSystem

theorem step_eq_some {s s' : PoolSystem β} {a : Action β} :
    s.step a = some s' ↔ ¬ s.isFreed = true ∧ s.act a = some s' := by
  unfold step
  by_cases hfreed : s.isFreed = true
  · simp [hfreed]
  · simp [hfreed]

/-- The job is in the queue. -/
def Queued (s : PoolSystem β) (job : Job β) : Prop := ∃ jobs, s.tp.queue.Holds jobs ∧ job ∈ jobs

end PoolSystem

/-! ## Steps that leave the jobs where they are -/

namespace Quiet

open PoolSystem

variable {s s' : PoolSystem β}

/-- Other counters, flags and threads. -/
theorem thenCounters (h : Quiet s s') (tp : Threadpool β) (closer : Closer) (monitorExited : Bool)
    (joiner : Joiner → Joining) (hqueue : tp.queue = s'.tp.queue)
    (hdepth : tp.queueDepth = s'.tp.queueDepth) (hactive : tp.activeWorkers = s'.tp.activeWorkers)
    (hclosed : s'.tp.submitClosed = true → tp.submitClosed = true) :
    Quiet s { s' with tp := tp, closer := closer, monitorExited := monitorExited, joiner := joiner } :=
  h.trans ⟨hqueue, hdepth, hactive, hclosed, rfl, rfl, rfl, rfl, fun _ => rfl⟩

theorem expand (h : PoolInv s) (creates : Slot → Bool) (newN : ℤ) (hshut : s.tp.shutdown = false) :
    Quiet s (threadpoolExpandLocked creates s newN).2 := by
  have hlive := h.live hshut
  obtain ⟨new, heq, -, hnew, -⟩ := threadpoolExpandLocked_eq creates newN hlive.aliveOfRetiring
  rw [heq]
  refine ⟨rfl, rfl, rfl, id, rfl, rfl, rfl, rfl, fun slot => ?_⟩
  show (override s.worker new .ready slot).load = _
  by_cases hslot : slot ∈ new
  · rw [override_of_mem hslot, (hlive.absent slot).mpr (hnew slot hslot)]
    rfl
  · rw [override_of_notMem hslot]

theorem mark {newN outCap : ℤ} {slots : List Slot}
    (hmark : threadpoolMarkRetireLocked s newN outCap = (slots, s')) : Quiet s s' := by
  rcases threadpoolMarkRetireLocked_eq s newN outCap with hnone | ⟨new, heq, -, -, -⟩
  · obtain ⟨-, rfl⟩ := Prod.mk.inj (hnone.symm.trans hmark)
    exact refl s
  · obtain ⟨-, rfl⟩ := Prod.mk.inj (heq.symm.trans hmark)
    exact ⟨rfl, rfl, rfl, id, rfl, rfl, rfl, rfl, fun slot => (s.worker slot).load_wake⟩

theorem resize (h : PoolInv s) (j : Joiner) (creates : Slot → Bool) (newN : ℤ) :
    Quiet s (s.threadpoolResize j creates newN) := by
  unfold threadpoolResize
  by_cases hpos : newN ≤ 0
  · rw [if_pos hpos]
    exact refl s
  rw [if_neg hpos]
  by_cases hclosed : s.tp.shutdown = true ∨ s.tp.submitClosed = true
  · rw [if_pos hclosed]
    exact refl s
  rw [if_neg hclosed]
  dsimp only
  generalize (if _ < s.tp.floorWorkers then s.tp.floorWorkers else _) = target
  have hshut : s.tp.shutdown = false := Bool.eq_false_of_not_eq_true (not_or.mp hclosed).1
  by_cases hmore : s.tp.nWorkers < target
  · rw [if_pos hmore]
    exact expand h creates target hshut
  rw [if_neg hmore]
  by_cases hless : target < s.tp.nWorkers
  · rw [if_pos hless]
    cases hmark : threadpoolMarkRetireLocked s target tpAbsMax with
    | mk slots t => exact (mark hmark).thenCounters _ _ _ _ rfl rfl rfl id
  · rw [if_neg hless]
    exact refl s

theorem sample (h : PoolInv s) (creates : Slot → Bool) : Quiet s (s.monitorSample creates) := by
  unfold monitorSample
  by_cases hexit : s.tp.monitorShouldExit = true ∨ s.tp.shutdown = true
  · rw [if_pos hexit]
    exact (refl s).thenCounters _ _ _ _ rfl rfl rfl id
  rw [if_neg hexit]
  have hshut : s.tp.shutdown = false := Bool.eq_false_of_not_eq_true (not_or.mp hexit).2
  by_cases hskip : 0 < s.tp.skipSamples
  · rw [if_pos hskip]
    exact (refl s).thenCounters _ _ _ _ rfl rfl rfl id
  rw [if_neg hskip]
  dsimp only
  generalize (if 0 < s.tp.nWorkers then (s.tp.activeWorkers * 100).tdiv s.tp.nWorkers else 0) = utilPct
  by_cases hhigh : tpHighWaterPct ≤ utilPct
  · rw [if_pos hhigh]
    by_cases hexpand : tpHighConsecutive ≤ s.tp.highConsecutive + 1 ∧ s.tp.nWorkers < tpSoftMax
    · rw [if_pos hexpand]
      have hcounters : PoolInv { s with
          tp := { s.tp with highConsecutive := s.tp.highConsecutive + 1, lowConsecutive := 0 } } :=
        h.counters _ _ _ _ _ _ _ _
      have hquiet := expand hcounters creates
        (if tpSoftMax < s.tp.nWorkers + tpStep then tpSoftMax else s.tp.nWorkers + tpStep) hshut
      have hcounted : Quiet s { s with
          tp := { s.tp with highConsecutive := s.tp.highConsecutive + 1, lowConsecutive := 0 } } :=
        ⟨rfl, rfl, rfl, id, rfl, rfl, rfl, rfl, fun _ => rfl⟩
      exact (hcounted.trans hquiet).thenCounters _ _ _ _ rfl rfl rfl id
    · rw [if_neg hexpand]
      exact (refl s).thenCounters _ _ _ _ rfl rfl rfl id
  rw [if_neg hhigh]
  by_cases hlow : utilPct ≤ tpLowWaterPct
  · rw [if_pos hlow]
    by_cases hretire : tpLowConsecutive ≤ s.tp.lowConsecutive + 1 ∧ s.tp.floorWorkers < s.tp.nWorkers
    · rw [if_pos hretire]
      generalize (if s.tp.nWorkers - tpStep < s.tp.floorWorkers then s.tp.floorWorkers
        else s.tp.nWorkers - tpStep) = target
      cases hmark : threadpoolMarkRetireLocked { s with
          tp := { s.tp with lowConsecutive := s.tp.lowConsecutive + 1, highConsecutive := 0 } }
          target tpStep with
      | mk slots t =>
        have hcounted : Quiet s { s with
            tp := { s.tp with lowConsecutive := s.tp.lowConsecutive + 1, highConsecutive := 0 } } :=
          ⟨rfl, rfl, rfl, id, rfl, rfl, rfl, rfl, fun _ => rfl⟩
        exact (hcounted.trans (mark hmark)).thenCounters _ _ _ _ rfl rfl rfl id
    · rw [if_neg hretire]
      exact (refl s).thenCounters _ _ _ _ rfl rfl rfl id
  · rw [if_neg hlow]
    exact (refl s).thenCounters _ _ _ _ rfl rfl rfl id

theorem clear (h : PoolInv s) {j : Joiner} (hstep : s.clearRetired j = some s') : Quiet s s' := by
  obtain ⟨slot, slots, hj, rfl⟩ := clearRetired_cases hstep
  have hexited : s.worker slot = .exited := by
    refine h.joins.joined j ?_ slot ?_ <;> rw [hj]
    rfl
  have hload := (Quiet.setWorker (w := .absent) (by rw [hexited]; rfl) : Quiet s _).load
  exact ⟨rfl, rfl, rfl, id, rfl, rfl, rfl, rfl, hload⟩

theorem close (hstep : s.closerStep = some s') : Quiet s s' := by
  unfold closerStep at hstep
  cases hc : s.closer with
  | idle => simp [hc] at hstep
  | stopMonitor next =>
    simp only [hc] at hstep
    split at hstep <;> rw [← Option.some.inj hstep] <;>
      exact (refl s).thenCounters _ _ _ _ rfl rfl rfl id
  | joinMonitor next =>
    simp only [hc] at hstep
    obtain ⟨-, heq⟩ := Option.ite_none_right_eq_some.mp hstep
    rw [← Option.some.inj heq]
    exact (refl s).thenCounters _ _ _ _ rfl rfl rfl id
  | drain =>
    simp only [hc] at hstep
    split at hstep <;> rw [← Option.some.inj hstep] <;>
      exact (refl s).thenCounters _ _ _ _ rfl rfl rfl id
  | drainWaiting =>
    simp only [hc] at hstep
    rw [← Option.some.inj hstep]
    exact (refl s).thenCounters _ _ _ _ rfl rfl rfl id
  | closing call =>
    simp only [hc] at hstep
    rw [← Option.some.inj hstep]
    exact ⟨rfl, rfl, rfl, id, rfl, rfl, rfl, rfl, fun slot => (s.worker slot).load_wake⟩
  | joining call slots =>
    cases slots with
    | nil =>
      simp only [hc] at hstep
      rw [← Option.some.inj hstep]
      exact (refl s).thenCounters _ _ _ _ rfl rfl rfl id
    | cons slot slots =>
      simp only [hc] at hstep
      by_cases halive : s.tp.workerAlive slot = true
      · rw [if_pos halive] at hstep
        cases hw : s.worker slot <;> simp only [hw, reduceCtorEq] at hstep
        rw [← Option.some.inj hstep]
        exact (refl s).thenCounters _ _ _ _ rfl rfl rfl id
      · rw [if_neg halive] at hstep
        rw [← Option.some.inj hstep]
        exact (refl s).thenCounters _ _ _ _ rfl rfl rfl id
  | returned call => simp [hc] at hstep

end Quiet

/-- **A new pool has the jobs of an empty one.** -/
theorem Quiet.create {creates : Slot → Bool} {monitorCreated : Bool} {n : ℤ} {s : PoolSystem β}
    (hcreate : threadpoolCreate creates monitorCreated n = some s) : Quiet (threadpoolInit n) s := by
  unfold threadpoolCreate at hcreate
  split at hcreate
  · exact absurd hcreate (by simp)
  obtain ⟨new, heq, -⟩ := PoolSystem.threadpoolExpandLocked_eq
    (s := (threadpoolInit n : PoolSystem β)) creates n (by simp [threadpoolInit])
  rw [heq] at hcreate
  dsimp only at hcreate
  split at hcreate
  · exact absurd hcreate (by simp)
  rw [← Option.some.inj hcreate]
  refine ⟨rfl, rfl, rfl, id, rfl, rfl, rfl, rfl, fun slot => ?_⟩
  show (override (threadpoolInit n : PoolSystem β).worker new .ready slot).load = _
  unfold override
  split <;> rfl

/-! ## What a step does to the jobs -/

open PoolSystem

/-- A job is accepted: it is the last one in the queue. -/
structure Accepts (s s' : PoolSystem β) (body : β) (addr : ℕ) : Prop where
  free : s.tp.queue.cells addr = none
  queue : s'.tp.queue = s.tp.queue.enqueue addr ⟨s.accepted, body⟩
  accepted : s'.accepted = s.accepted + 1
  completed : s'.completed = s.completed
  load : ∀ slot, (s'.worker slot).load = (s.worker slot).load

/-- What a step does to the jobs: nothing, or one of five things. -/
inductive JobStep (s s' : PoolSystem β) : Action β → Prop
  | quiet {a : Action β} (h : Quiet s s') : JobStep s s' a
  | accept {body : β} {addr : ℕ} {woken : Option Slot} (h : Accepts s s' body addr) :
      JobStep s s' (.submit body addr woken)
  | take {slot : Slot} {job : Job β} {queue : LinkedQueue (Job β)} (hready : s.worker slot = .ready)
      (hqueue : s.tp.queue.dequeue = some (job, queue)) (heq : s' = s.workerTake slot job queue) :
      JobStep s s' (.look slot)
  | start {slot : Slot} {job : Job β} (hw : s.worker slot = .taken job)
      (heq : s' = { s.setWorker slot (.running job) with started := s.started ++ [job.ticket] }) :
      JobStep s s' (.start slot)
  | back {slot : Slot} {job : Job β} (hw : s.worker slot = .running job)
      (heq : s' = { s.setWorker slot .finished with completed := s.completed ++ [job.ticket] }) :
      JobStep s s' (.return slot)
  | finish {slot : Slot} (hw : s.worker slot = .finished) (heq : s' = s.workerDone slot) :
      JobStep s s' (.finish slot)

section Steps

variable {s s' : PoolSystem β}

/-- A job that is not accepted changes nothing. -/
theorem quiet_submit {body : β} {addr : ℕ} {woken : Option Slot}
    (hstep : s.threadpoolSubmit body addr woken = some (false, s')) : Quiet s s' := by
  unfold threadpoolSubmit at hstep
  split at hstep
  · obtain ⟨-, rfl⟩ := Prod.mk.inj (Option.some.inj hstep)
    exact .refl s
  · split at hstep
    · obtain ⟨-, rfl⟩ := Prod.mk.inj (Option.some.inj hstep)
      exact (Quiet.refl s).thenCounters _ _ _ _ rfl rfl rfl id
    · split at hstep
      · exact absurd hstep (by simp)
      · obtain ⟨t, -, ht⟩ := Option.map_eq_some_iff.mp hstep
        exact absurd (Prod.mk.inj ht).1 (by simp)

theorem accepts_submit {body : β} {addr : ℕ} {woken : Option Slot}
    (hstep : s.threadpoolSubmit body addr woken = some (true, s')) : Accepts s s' body addr := by
  unfold threadpoolSubmit at hstep
  split at hstep
  · exact absurd (Prod.mk.inj (Option.some.inj hstep)).1 (by simp)
  · split at hstep
    · exact absurd (Prod.mk.inj (Option.some.inj hstep)).1 (by simp)
    · split at hstep
      · exact absurd hstep (by simp)
      · rename_i hcell
        obtain ⟨t, hsignal, ht⟩ := Option.map_eq_some_iff.mp hstep
        obtain ⟨-, rfl⟩ := Prod.mk.inj ht
        have hfree : s.tp.queue.cells addr = none := by simpa using hcell
        rcases signalNonempty_cases hsignal with ⟨slot, hwaiting, rfl⟩ | ⟨-, rfl⟩
        · refine ⟨hfree, rfl, rfl, rfl, ?_⟩
          exact (Quiet.setWorker (by rw [hwaiting]; rfl) : Quiet s (s.setWorker slot .ready)).load
        · exact ⟨hfree, rfl, rfl, rfl, fun _ => rfl⟩

/-- **Every step does one of these.** -/
theorem jobStep_of_step (h : PoolInv s) {a : Action β} (hstep : s.step a = some s') :
    JobStep s s' a := by
  obtain ⟨-, hstep⟩ := step_eq_some.mp hstep
  cases a with
  | submit body addr woken =>
    obtain ⟨⟨accepted, t⟩, hsubmit, rfl⟩ := Option.map_eq_some_iff.mp hstep
    cases accepted with
    | false => exact .quiet (quiet_submit hsubmit)
    | true => exact .accept (accepts_submit hsubmit)
  | look slot =>
    obtain ⟨hready, hcases⟩ := workerLook_cases hstep
    rcases hcases with ⟨-, -, -, rfl⟩ | ⟨-, rfl⟩ | ⟨-, -, job, queue, hqueue, rfl⟩
    · exact .quiet (.setWorker (by rw [hready]; rfl))
    · exact .quiet (.setWorker (by rw [hready]; rfl))
    · exact .take hready hqueue rfl
  | start slot =>
    obtain ⟨job, hw, rfl⟩ := workerStart_cases hstep
    exact .start hw rfl
  | «return» slot =>
    obtain ⟨job, hw, rfl⟩ := workerReturn_cases hstep
    exact .back hw rfl
  | finish slot =>
    obtain ⟨hw, rfl⟩ := workerFinish_cases hstep
    exact .finish hw rfl
  | wake slot =>
    obtain ⟨hwaiting, heq⟩ := Option.ite_none_right_eq_some.mp hstep
    rw [← Option.some.inj heq]
    exact .quiet (.setWorker (by rw [isWaiting_iff.mp hwaiting]; rfl))
  | resize id creates newN =>
    obtain ⟨-, heq⟩ := Option.ite_none_right_eq_some.mp hstep
    rw [← Option.some.inj heq]
    exact .quiet (.resize h _ creates newN)
  | sample creates =>
    obtain ⟨-, heq⟩ := Option.ite_none_right_eq_some.mp hstep
    rw [← Option.some.inj heq]
    exact .quiet (.sample h creates)
  | join j =>
    obtain ⟨slot, slots, -, -, rfl⟩ := joinReturns_cases hstep
    exact .quiet ((Quiet.refl s).thenCounters _ _ _ _ rfl rfl rfl id)
  | clear j => exact .quiet (.clear h hstep)
  | setQueueMax max =>
    rw [← Option.some.inj hstep]
    unfold threadpoolSetQueueMax
    split
    · exact .quiet (.refl s)
    · exact .quiet ((Quiet.refl s).thenCounters _ _ _ _ rfl rfl rfl id)
  | shutdown =>
    obtain ⟨-, heq⟩ := Option.ite_none_right_eq_some.mp hstep
    rw [← Option.some.inj heq]
    exact .quiet ((Quiet.refl s).thenCounters _ _ _ _ rfl rfl rfl id)
  | shutdownGraceful =>
    obtain ⟨-, heq⟩ := Option.ite_none_right_eq_some.mp hstep
    rw [← Option.some.inj heq]
    exact .quiet ((Quiet.refl s).thenCounters _ _ _ _ rfl rfl rfl fun _ => rfl)
  | close => exact .quiet (.close hstep)
  | timeout =>
    unfold PoolSystem.act drainTimeout at hstep
    dsimp only at hstep
    split at hstep
    · rw [← Option.some.inj hstep]
      exact .quiet ((Quiet.refl s).thenCounters _ _ _ _ rfl rfl rfl id)
    · exact absurd hstep (by simp)

end Steps

/-! ## Jobs that stay -/

/-- No job comes and none goes: a worker at most takes one from the queue. -/
structure Carries (s s' : PoolSystem β) : Prop where
  accepted : s'.accepted = s.accepted
  completed : s'.completed = s.completed
  queued : ∀ job, s'.Queued job → s.Queued job
  held : ∀ slot job, (s'.worker slot).job = some job →
    (s.worker slot).job = some job ∨ s.worker slot = .ready ∧ s.Queued job
  running : ∀ slot job, s.worker slot = .running job → s'.worker slot = .running job

theorem Quiet.carries {s s' : PoolSystem β} (h : Quiet s s') : Carries s s' where
  accepted := h.accepted
  completed := h.completed
  queued := by
    rintro job ⟨jobs, hholds, hmem⟩
    exact ⟨jobs, h.queue ▸ hholds, hmem⟩
  held := by
    intro slot job hjob
    left
    rw [← Worker.job_eq_of_load (h.load slot), hjob]
  running := by
    intro slot job hw
    exact Worker.eq_running_of_load (hw ▸ h.load slot)

section Steps

variable {s s' : PoolSystem β}

/-- The queue without its first job has the jobs behind it. -/
theorem queued_of_dequeue (h : JobsOk s) {job : Job β} {queue : LinkedQueue (Job β)}
    (hqueue : s.tp.queue.dequeue = some (job, queue)) :
    s.Queued job ∧ ∀ job' jobs, queue.Holds jobs → job' ∈ jobs → s.Queued job' := by
  obtain ⟨jobs, hholds, -, -⟩ := h.queue
  cases jobs with
  | nil =>
    have hhead := hholds.eq_nil_iff.mp rfl
    rw [LinkedQueue.dequeue, hhead] at hqueue
    exact absurd hqueue (by simp)
  | cons first rest =>
    obtain ⟨queue', hqueue', hrest⟩ := hholds.dequeue
    obtain ⟨rfl, rfl⟩ := Prod.mk.inj (Option.some.inj (hqueue.symm.trans hqueue'))
    refine ⟨⟨_, hholds, List.mem_cons_self ..⟩, fun job' jobs hjobs hmem => ⟨_, hholds, ?_⟩⟩
    exact List.mem_cons_of_mem _ (hjobs.unique hrest ▸ hmem)

/-- The queue has one more job. -/
theorem Accepts.queued (h : JobsOk s) {body : β} {addr : ℕ} (ha : Accepts s s' body addr) {job : Job β}
    (hjob : s'.Queued job) : s.Queued job ∨ job = ⟨s.accepted, body⟩ := by
  obtain ⟨jobs, hholds, hmem⟩ := hjob
  obtain ⟨jobs', hholds', -, -⟩ := h.queue
  rw [ha.queue] at hholds
  rw [hholds.unique (hholds'.enqueue ha.free _)] at hmem
  rcases List.mem_append.mp hmem with hold | hnew
  · exact Or.inl ⟨jobs', hholds', hold⟩
  · exact Or.inr (List.mem_singleton.mp hnew)

/-- A worker moves on with the job that it has, or without one. -/
theorem Carries.setWorker {slot : Slot} {w : Worker β} {active : ℤ} {closer : Closer}
    {started : List ℕ} (hjob : w.job = (s.worker slot).job)
    (hrunning : ∀ job, s.worker slot ≠ .running job) :
    Carries s { s with
      tp := { s.tp with activeWorkers := active }
      worker := Function.update s.worker slot w
      closer := closer
      started := started } where
  accepted := rfl
  completed := rfl
  queued := fun _ => id
  held := by
    intro i job hi
    dsimp only at hi
    left
    by_cases his : i = slot
    · rwa [his, Function.update_self, hjob, ← his] at hi
    · rwa [Function.update_of_ne his] at hi
  running := by
    intro i job hi
    by_cases his : i = slot
    · rw [his] at hi
      exact absurd hi (hrunning job)
    · exact (Function.update_of_ne his ..).trans hi

theorem Carries.take (h : JobsOk s) {slot : Slot} {job : Job β} {queue : LinkedQueue (Job β)}
    (hready : s.worker slot = .ready) (hqueue : s.tp.queue.dequeue = some (job, queue)) :
    Carries s (s.workerTake slot job queue) := by
  obtain ⟨hfirst, hrest⟩ := queued_of_dequeue h hqueue
  rw [workerTake_eq]
  refine ⟨rfl, rfl, ?_, ?_, ?_⟩
  · rintro job' ⟨jobs, hholds, hmem⟩
    exact hrest job' jobs hholds hmem
  · intro i job' hi
    dsimp only at hi
    by_cases his : i = slot
    · rw [his, Function.update_self] at hi
      right
      obtain rfl := Option.some.inj hi
      exact ⟨his ▸ hready, hfirst⟩
    · left
      rwa [Function.update_of_ne his] at hi
  · intro i job' hi
    have his : i ≠ slot := by
      rintro rfl
      exact absurd (hi.symm.trans hready) (by simp)
    exact (Function.update_of_ne his ..).trans hi

/-- **But for a submit that is accepted and the return of a call, no job comes and none goes.** -/
theorem carries_of_step (h : PoolInv s) {a : Action β} (hstep : s.step a = some s')
    (hsubmit : ∀ body addr woken, a ≠ .submit body addr woken) (hreturn : ∀ slot, a ≠ .return slot) :
    Carries s s' := by
  cases jobStep_of_step h hstep with
  | quiet hquiet => exact hquiet.carries
  | accept => exact absurd rfl (hsubmit _ _ _)
  | take hready hqueue heq =>
    subst heq
    exact .take h.jobs hready hqueue
  | start hw heq =>
    subst heq
    apply Carries.setWorker
    · rw [hw]
      rfl
    · simp [hw]
  | back => exact absurd rfl (hreturn _)
  | finish hw heq =>
    subst heq
    rw [workerDone_eq]
    apply Carries.setWorker
    · rw [hw]
      rfl
    · simp [hw]

end Steps

/-! ## Tickets -/

namespace JobsOk

variable {s : PoolSystem β}

/-- The tickets of the jobs that the workers have. -/
theorem outstanding (h : JobsOk s) :
    (s.completed : Multiset ℕ) + ∑ slot, ((s.worker slot).runningTicket + (s.worker slot).takenTicket)
      = s.dequeued := by
  rw [Finset.sum_add_distrib, h.taken, h.running, add_assoc]
  rfl

theorem ticket_of_job {w : Worker β} {job : Job β} (h : w.job = some job) :
    w.runningTicket + w.takenTicket = {job.ticket} := by
  cases w <;> simp [Worker.job] at h
  all_goals
    subst h
    simp [Worker.runningTicket, Worker.takenTicket]

theorem dequeued_nodup (h : JobsOk s) : s.dequeued.Nodup := by
  rw [h.dequeued_eq]
  exact List.nodup_range

/-- A ticket that a worker has was dequeued, and is not completed. -/
theorem ticket_held (h : JobsOk s) {slot : Slot} {job : Job β}
    (hjob : (s.worker slot).job = some job) :
    job.ticket ∈ s.dequeued ∧ job.ticket ∉ s.completed := by
  have hout := h.outstanding
  have hle : ({job.ticket} : Multiset ℕ) ≤
      ∑ slot, ((s.worker slot).runningTicket + (s.worker slot).takenTicket) := by
    rw [← ticket_of_job hjob]
    exact Finset.single_le_sum (fun _ _ => Multiset.zero_le _) (Finset.mem_univ slot)
  have hmem := Multiset.mem_of_le hle (Multiset.mem_singleton_self _)
  have hnodup : ((s.completed : Multiset ℕ) +
      ∑ slot, ((s.worker slot).runningTicket + (s.worker slot).takenTicket)).Nodup := by
    rw [hout]
    exact h.dequeued_nodup
  refine ⟨?_, fun hdone => ?_⟩
  · have hin : job.ticket ∈ (s.dequeued : Multiset ℕ) := hout ▸ Multiset.mem_add.mpr (.inr hmem)
    exact hin
  · exact Multiset.disjoint_left.mp (Multiset.nodup_add.mp hnodup).2.2 hdone hmem

/-- **A worker has a job that no other one has.** -/
theorem unique (h : JobsOk s) {slot slot' : Slot} {job job' : Job β}
    (hjob : (s.worker slot).job = some job) (hjob' : (s.worker slot').job = some job')
    (hticket : job.ticket = job'.ticket) : slot = slot' := by
  by_contra hne
  have hout := h.outstanding
  rw [← Finset.add_sum_erase Finset.univ _ (Finset.mem_univ slot), ticket_of_job hjob] at hout
  have hle : ({job'.ticket} : Multiset ℕ) ≤
      ∑ slot ∈ Finset.univ.erase slot,
        ((s.worker slot).runningTicket + (s.worker slot).takenTicket) := by
    rw [← ticket_of_job hjob']
    exact Finset.single_le_sum (fun _ _ => Multiset.zero_le _)
      (Finset.mem_erase.mpr ⟨Ne.symm hne, Finset.mem_univ slot'⟩)
  have hmem := Multiset.mem_of_le hle (Multiset.mem_singleton_self _)
  have hnodup : ((s.completed : Multiset ℕ) + ({job.ticket} +
      ∑ slot ∈ Finset.univ.erase slot,
        ((s.worker slot).runningTicket + (s.worker slot).takenTicket))).Nodup := by
    rw [hout]
    exact h.dequeued_nodup
  have hdisjoint := (Multiset.nodup_add.mp (Multiset.nodup_add.mp hnodup).2.1).2.2
  exact Multiset.disjoint_left.mp hdisjoint (Multiset.mem_singleton_self _) (hticket ▸ hmem)

/-- A job in the queue has the ticket of no job that was taken. -/
theorem ticket_queued (h : JobsOk s) {job : Job β} (hjob : s.Queued job) :
    job.ticket < s.accepted ∧ job.ticket ∉ s.dequeued := by
  obtain ⟨jobs, hholds, hmem⟩ := hjob
  obtain ⟨jobs', hholds', -, htickets⟩ := h.queue
  obtain rfl := hholds.unique hholds'
  have hticket : job.ticket ∈ jobs.map Job.ticket := List.mem_map_of_mem hmem
  have hnodup : (s.dequeued ++ jobs.map Job.ticket).Nodup := htickets ▸ List.nodup_range
  refine ⟨?_, fun hdequeued => ?_⟩
  · have hin : job.ticket ∈ s.dequeued ++ jobs.map Job.ticket := List.mem_append_right _ hticket
    rw [htickets] at hin
    exact List.mem_range.mp hin
  · exact (List.nodup_append.mp hnodup).2.2 _ hdequeued _ hticket rfl

/-- An accepted job is in the queue, or a worker has it, or it is done. -/
theorem locate (h : JobsOk s) {ticket : ℕ} (hticket : ticket < s.accepted) :
    ticket ∈ s.completed ∨ (∃ job, s.Queued job ∧ job.ticket = ticket) ∨
      ∃ slot job, (s.worker slot).job = some job ∧ job.ticket = ticket := by
  obtain ⟨jobs, hholds, -, htickets⟩ := h.queue
  rcases List.mem_append.mp (htickets ▸ List.mem_range.mpr hticket) with hdequeued | hqueued
  · have hin : ticket ∈ (s.completed : Multiset ℕ) +
        ∑ slot, ((s.worker slot).runningTicket + (s.worker slot).takenTicket) := by
      rw [h.outstanding]
      exact hdequeued
    rcases Multiset.mem_add.mp hin with hdone | hheld
    · exact Or.inl hdone
    · obtain ⟨slot, -, hslot⟩ := Multiset.mem_sum.mp hheld
      right
      right
      cases hw : s.worker slot <;> simp [hw, Worker.runningTicket, Worker.takenTicket] at hslot
      all_goals exact ⟨slot, _, by rw [hw]; rfl, hslot.symm⟩
  · obtain ⟨job, hjob, rfl⟩ := List.mem_map.mp hqueued
    exact Or.inr (Or.inl ⟨job, ⟨jobs, hholds, hjob⟩, rfl⟩)

end JobsOk

end MiniSql

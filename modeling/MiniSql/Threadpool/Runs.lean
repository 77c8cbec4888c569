import MiniSql.Threadpool.Slots

/-!
# Runs of the pool

What holds of the jobs, of the slots and of the shutdown after every step, whatever thread takes
it.

## Main definitions

* `PoolInv` — the invariant.

## Main results

* `PoolInv.step`, `PoolInv.run` — one step and a whole run keep it.
* `threadpool_run_once` — jobs are started once and in order, and a graceful shutdown that returns
  0 leaves none.
* `threadpool_run_awake` — a job in the queue has a worker that will look at it.
* `threadpool_run_counts` — the counters are right.
-/

namespace MiniSql

variable {β : Type*}

/-- The thread that shuts the pool down has had new jobs refused. -/
def Closer.refusesSubmit : Closer → Bool
  | .idle => false
  | .stopMonitor next | .joinMonitor next => next ≠ some .hard
  | .drain | .drainWaiting => true
  | .closing call | .joining call _ | .returned call => call ≠ .hard

/-- The thread that shuts the pool down has seen it without a job. -/
def Closer.hasDrained : Closer → Bool
  | .stopMonitor next | .joinMonitor next => next = some (.graceful false)
  | .closing call | .joining call _ | .returned call => call = .graceful false
  | _ => false

theorem Closer.refusesSubmit_wake (c : Closer) : c.wake.refusesSubmit = c.refusesSubmit := by
  cases c <;> rfl

theorem Closer.hasDrained_wake (c : Closer) : c.wake.hasDrained = c.hasDrained := by
  cases c <;> rfl

theorem Closer.refusesSubmit_of_hasDrained {c : Closer} (h : c.hasDrained = true) :
    c.refusesSubmit = true := by
  cases c <;> simp_all [Closer.hasDrained, Closer.refusesSubmit]

/-- The thread that shuts the pool down is where it was, or wakes up. -/
def Closer.WokenTo (c c' : Closer) : Prop := c' = c ∨ c' = c.wake

theorem Closer.wokenTo_ite (c : Closer) (p : Prop) [Decidable p] :
    c.WokenTo (if p then c.wake else c) := by
  by_cases hp : p
  · rw [if_pos hp]
    exact Or.inr rfl
  · rw [if_neg hp]
    exact Or.inl rfl

namespace Closer.WokenTo

variable {c c' : Closer}

theorem refusesSubmit (h : c.WokenTo c') : c'.refusesSubmit = c.refusesSubmit := by
  rcases h with rfl | rfl
  · rfl
  · exact c.refusesSubmit_wake

theorem hasDrained (h : c.WokenTo c') : c'.hasDrained = c.hasDrained := by
  rcases h with rfl | rfl
  · rfl
  · exact c.hasDrained_wake

theorem joining (h : c.WokenTo c') {call : Shutdown} {slots : List Slot}
    (hc : c' = .joining call slots) : c = .joining call slots := by
  rcases h with rfl | rfl
  · exact hc
  · cases c <;> simp_all [Closer.wake]

end Closer.WokenTo

/-- What holds after every step. -/
structure PoolInv (s : PoolSystem β) : Prop where
  jobs : JobsOk s
  joins : JoinsOk s.tp.workerAlive s.tp.workerRetiring s.worker s.joiner
  live : s.tp.shutdown = false →
    LiveOk s.tp.workerAlive s.tp.workerRetiring s.worker s.tp.nWorkers
  bounds : 0 < s.tp.floorWorkers ∧ s.tp.floorWorkers ≤ s.tp.nWorkers ∧
    s.tp.nWorkers ≤ max s.tp.floorWorkers tpSoftMax
  awake : s.tp.shutdown = false → s.tp.queue.head ≠ none →
    Awake s.tp.workerAlive s.tp.workerRetiring s.worker
  refuses : s.closer.refusesSubmit = true → s.tp.submitClosed = true
  drained : s.closer.hasDrained = true → s.tp.queue.head = none ∧ s.tp.activeWorkers = 0
  shut : ∀ call slots, s.closer = .joining call slots → s.tp.shutdown = true

namespace PoolInv

open PoolSystem

variable {s s' : PoolSystem β}

/-! ## Workers -/

/-- A worker without a job moves, and stays without one. -/
theorem setIdle (h : PoolInv s) {slot : Slot} {w : Worker β} (hload : w.load = (s.worker slot).load)
    (habsent : s.worker slot ≠ .absent) (hexited : s.worker slot ≠ .exited) (hw : w ≠ .absent)
    (hleaves : s.tp.shutdown = false → w = .exited → s.tp.workerRetiring slot = true)
    (hwaits : s.tp.shutdown = false → w = .waiting → s.tp.workerRetiring slot = false)
    (hawake : s.tp.shutdown = false → s.tp.queue.head ≠ none →
      Awake s.tp.workerAlive s.tp.workerRetiring (Function.update s.worker slot w)) :
    PoolInv (s.setWorker slot w) where
  jobs := h.jobs.quiet (Quiet.setWorker hload)
  joins := h.joins.setWorker habsent hexited
  live := fun hshut => (h.live hshut).setWorker habsent hw (hleaves hshut) (hwaits hshut)
  bounds := h.bounds
  awake := hawake
  refuses := h.refuses
  drained := h.drained
  shut := h.shut

/-- A waiting worker wakes up. -/
theorem setReady (h : PoolInv s) {slot : Slot} (hw : s.worker slot = .waiting) :
    PoolInv (s.setWorker slot .ready) := by
  refine h.setIdle (by rw [hw]; rfl) (by simp [hw]) (by simp [hw]) (by simp) (by simp) (by simp) ?_
  exact fun hshut hhead => (h.awake hshut hhead).setWorker rfl

/-- A worker with a job goes on. -/
theorem setBusy (h : PoolInv s) {slot : Slot} {w : Worker β} {active : ℤ} {started completed : List ℕ}
    {closer : Closer} (hold : (s.worker slot).isBusy = true) (hw : w.isAwake = true)
    (hcloser : s.closer.WokenTo closer)
    (hjobs : JobsOk { s with
      tp := { s.tp with activeWorkers := active }
      worker := Function.update s.worker slot w
      closer := closer
      started := started
      completed := completed }) :
    PoolInv { s with
      tp := { s.tp with activeWorkers := active }
      worker := Function.update s.worker slot w
      closer := closer
      started := started
      completed := completed } where
  jobs := hjobs
  joins := by
    refine h.joins.setWorker (fun heq => ?_) fun heq => ?_ <;> simp [heq, Worker.isBusy] at hold
  live := by
    intro hshut
    refine (h.live hshut).setWorker (fun heq => ?_) ?_ ?_ ?_
    · simp [heq, Worker.isBusy] at hold
    all_goals (cases w <;> simp_all [Worker.isAwake])
  bounds := h.bounds
  awake := fun hshut hhead => (h.awake hshut hhead).setWorker hw
  refuses := fun hrefuses => h.refuses (hcloser.refusesSubmit ▸ hrefuses)
  drained := by
    intro hdrained
    have hmem : slot ∈ busySlots s.worker := mem_busySlots.mpr hold
    have hcard := Finset.card_pos.mpr ⟨slot, hmem⟩
    have hactive := h.jobs.active
    have hzero := (h.drained (hcloser.hasDrained ▸ hdrained)).2
    omega
  shut := fun call slots heq => h.shut call slots (hcloser.joining heq)

theorem start (h : PoolInv s) {slot : Slot} (hstep : s.workerStart slot = some s') : PoolInv s' := by
  obtain ⟨job, hw, rfl⟩ := workerStart_cases hstep
  exact h.setBusy (by rw [hw]; rfl) rfl (Or.inl rfl) (h.jobs.workerStart hw)

theorem comeBack (h : PoolInv s) {slot : Slot} (hstep : s.workerReturn slot = some s') :
    PoolInv s' := by
  obtain ⟨job, hw, rfl⟩ := workerReturn_cases hstep
  exact h.setBusy (by rw [hw]; rfl) rfl (Or.inl rfl) (h.jobs.workerReturn hw)

theorem finish (h : PoolInv s) {slot : Slot} (hstep : s.workerFinish slot = some s') :
    PoolInv s' := by
  obtain ⟨hw, rfl⟩ := workerFinish_cases hstep
  have hjobs := h.jobs.workerDone hw
  rw [workerDone_eq] at hjobs ⊢
  exact h.setBusy (by rw [hw]; rfl) rfl (Closer.wokenTo_ite _ _) hjobs

/-- A worker takes the first job. -/
theorem take (h : PoolInv s) {slot : Slot} {job : Job β} {queue : LinkedQueue (Job β)}
    (hready : s.worker slot = .ready) (hretiring : s.tp.workerRetiring slot = false)
    (hqueue : s.tp.queue.dequeue = some (job, queue)) : PoolInv (s.workerTake slot job queue) := by
  have hjobs := h.jobs.workerTake hready hqueue
  rw [workerTake_eq] at hjobs ⊢
  have hcloser := s.closer.wokenTo_ite (s.tp.queueDepth - 1 = 0)
  have halive : s.tp.shutdown = false → s.tp.workerAlive slot = true := by
    intro hshut
    by_contra hdead
    have habsent := ((h.live hshut).absent slot).mpr (Bool.eq_false_of_not_eq_true hdead)
    exact absurd (hready.symm.trans habsent) (by simp)
  refine ⟨hjobs, ?_, fun hshut => ?_, h.bounds, fun hshut _ => ?_, fun hrefuses => ?_, fun hdrained => ?_,
    fun call slots heq => h.shut call slots (hcloser.joining heq)⟩
  · exact h.joins.setWorker (by simp [hready]) (by simp [hready])
  · exact (h.live hshut).setWorker (by simp [hready]) (by simp) (by simp) (by simp)
  · refine ⟨slot, halive hshut, hretiring, ?_⟩
    show (Function.update s.worker slot (Worker.taken job) slot).isAwake = true
    rw [Function.update_self]
    rfl
  · exact h.refuses (hcloser.refusesSubmit ▸ hrefuses)
  · have hhead := (h.drained (hcloser.hasDrained ▸ hdrained)).1
    rw [LinkedQueue.dequeue, hhead] at hqueue
    exact absurd hqueue (by simp)

theorem look (h : PoolInv s) {slot : Slot} (hstep : s.workerLook slot = some s') : PoolInv s' := by
  obtain ⟨hready, hcases⟩ := workerLook_cases hstep
  rcases hcases with ⟨hhead, hshut, hretiring, rfl⟩ | ⟨hleaves, rfl⟩ |
    ⟨-, hretiring, job, queue, hqueue, rfl⟩
  · refine h.setIdle (by rw [hready]; rfl) (by simp [hready]) (by simp [hready]) (by simp) (by simp)
      (fun _ _ => hretiring) ?_
    exact fun _ hne => absurd hhead hne
  · have hflag : s.tp.shutdown = false → s.tp.workerRetiring slot = true := by
      intro hshut
      exact hleaves.resolve_left (by simp [hshut])
    refine h.setIdle (by rw [hready]; rfl) (by simp [hready]) (by simp [hready]) (by simp)
      (fun hshut _ => hflag hshut) (by simp) ?_
    exact fun hshut hhead => (h.awake hshut hhead).setRetiring (hflag hshut)
  · exact h.take hready hretiring hqueue

theorem wake (h : PoolInv s) {slot : Slot} (hstep : s.workerWake slot = some s') : PoolInv s' := by
  unfold workerWake at hstep
  by_cases hwaiting : s.isWaiting slot = true
  · rw [if_pos hwaiting] at hstep
    rw [← Option.some.inj hstep]
    exact h.setReady (isWaiting_iff.mp hwaiting)
  · rw [if_neg hwaiting] at hstep
    exact absurd hstep (by simp)

/-! ## Jobs -/

/-- Counters change that nothing depends on. -/
theorem counters (h : PoolInv s) (queueMax : ℤ) (rejectedTotal : ℕ)
    (monitorStarted monitorShouldExit : Bool) (highConsecutive lowConsecutive skipSamples : ℤ)
    (monitorExited : Bool) :
    PoolInv { s with
      tp := { s.tp with
        queueMax := queueMax
        rejectedTotal := rejectedTotal
        monitorStarted := monitorStarted
        monitorShouldExit := monitorShouldExit
        highConsecutive := highConsecutive
        lowConsecutive := lowConsecutive
        skipSamples := skipSamples }
      monitorExited := monitorExited } where
  jobs := ⟨h.jobs.queue, h.jobs.taken, h.jobs.running, h.jobs.active⟩
  joins := h.joins
  live := h.live
  bounds := h.bounds
  awake := h.awake
  refuses := h.refuses
  drained := h.drained
  shut := h.shut

/-- A job is accepted, and a worker is woken if one waits. -/
theorem accept (h : PoolInv s) {body : β} {addr : ℕ} {woken : Option Slot}
    (hfree : s.tp.queue.cells addr = none) (hopen : s.tp.submitClosed = false)
    (hsignal : signalNonempty { s with
      tp := { s.tp with
        queue := s.tp.queue.enqueue addr ⟨s.accepted, body⟩
        queueDepth := s.tp.queueDepth + 1 }
      accepted := s.accepted + 1 } woken = some s') : PoolInv s' := by
  have hjobs := h.jobs.submit hfree body
  have hrefuses : s.closer.refusesSubmit ≠ true := fun hclosed =>
    absurd (h.refuses hclosed) (by simp [hopen])
  have hdrained : s.closer.hasDrained ≠ true := fun hdrained =>
    hrefuses (Closer.refusesSubmit_of_hasDrained hdrained)
  rcases signalNonempty_cases hsignal with ⟨slot, hwaiting, rfl⟩ | ⟨hnone, rfl⟩
  · have hw : s.worker slot = .waiting := hwaiting
    refine ⟨hjobs.quiet (Quiet.setWorker (by rw [hwaiting]; rfl)), ?_, fun hshut => ?_, h.bounds,
      fun hshut _ => ?_, fun hclosed => absurd hclosed hrefuses, fun hd => absurd hd hdrained, h.shut⟩
    · exact h.joins.setWorker (by simp [hw]) (by simp [hw])
    · exact (h.live hshut).setWorker (by simp [hw]) (by simp) (by simp) (by simp)
    · have hlive := h.live hshut
      refine ⟨slot, ?_, hlive.waiting slot hw, ?_⟩
      · by_contra hdead
        have habsent := (hlive.absent slot).mpr (Bool.eq_false_of_not_eq_true hdead)
        exact absurd (hw.symm.trans habsent) (by simp)
      · show (Function.update s.worker slot Worker.ready slot).isAwake = true
        rw [Function.update_self]
        rfl
  · refine ⟨hjobs, h.joins, h.live, h.bounds, fun hshut _ => ?_, fun hclosed => absurd hclosed hrefuses,
      fun hd => absurd hd hdrained, h.shut⟩
    exact (h.live hshut).awake (h.bounds.1.trans_le h.bounds.2.1) hnone

theorem submit (h : PoolInv s) {body : β} {addr : ℕ} {woken : Option Slot} {accepted : Bool}
    (hstep : s.threadpoolSubmit body addr woken = some (accepted, s')) : PoolInv s' := by
  unfold threadpoolSubmit at hstep
  by_cases hclosed : s.tp.shutdown = true ∨ s.tp.submitClosed = true
  · rw [if_pos hclosed] at hstep
    obtain ⟨-, rfl⟩ := Prod.mk.inj (Option.some.inj hstep)
    exact h
  rw [if_neg hclosed] at hstep
  by_cases hfull : 0 < s.tp.queueMax ∧ s.tp.queueMax ≤ s.tp.queueDepth
  · rw [if_pos hfull] at hstep
    obtain ⟨-, rfl⟩ := Prod.mk.inj (Option.some.inj hstep)
    exact h.counters _ _ _ _ _ _ _ _
  rw [if_neg hfull] at hstep
  by_cases hcell : (s.tp.queue.cells addr).isSome = true
  · rw [if_pos hcell] at hstep
    exact absurd hstep (by simp)
  rw [if_neg hcell] at hstep
  obtain ⟨t, hsignal, ht⟩ := Option.map_eq_some_iff.mp hstep
  obtain ⟨-, rfl⟩ := Prod.mk.inj ht
  have hopen : s.tp.submitClosed = false :=
    Bool.eq_false_of_not_eq_true (not_or.mp hclosed).2
  exact h.accept (by simpa using hcell) hopen hsignal

/-! ## Resizing -/

theorem expand (h : PoolInv s) (creates : Slot → Bool) {newN : ℤ} (hshut : s.tp.shutdown = false)
    (hmax : newN ≤ max s.tp.floorWorkers tpSoftMax) :
    PoolInv (threadpoolExpandLocked creates s newN).2 := by
  have hlive := h.live hshut
  obtain ⟨new, heq, hnodup, hnew, hcount⟩ :=
    threadpoolExpandLocked_eq creates newN hlive.aliveOfRetiring
  rw [heq]
  have hstays : ∀ slot ∈ new, s.tp.workerRetiring slot = false := by
    intro slot hslot
    by_contra hretiring
    have halive := hlive.aliveOfRetiring slot (Bool.eq_true_of_not_eq_false hretiring)
    exact absurd (halive.symm.trans (hnew slot hslot)) (by simp)
  have hload : ∀ slot, (override s.worker new .ready slot).load = (s.worker slot).load := by
    intro slot
    by_cases hslot : slot ∈ new
    · rw [override_of_mem hslot, (hlive.absent slot).mpr (hnew slot hslot)]
      rfl
    · rw [override_of_notMem hslot]
  refine ⟨h.jobs.quiet ⟨rfl, rfl, rfl, id, rfl, rfl, rfl, rfl, hload⟩, h.joins.spawnAll hstays,
    fun _ => hlive.spawnAll hnodup hnew, ?_, fun _ hhead => (h.awake hshut hhead).spawnAll, h.refuses,
    h.drained, h.shut⟩
  obtain ⟨hpos, hfloor, hle⟩ := h.bounds
  refine ⟨hpos, ?_, ?_⟩
  · show s.tp.floorWorkers ≤ s.tp.nWorkers + new.length
    omega
  · show s.tp.nWorkers + new.length ≤ max s.tp.floorWorkers tpSoftMax
    rcases hcount with rfl | hcount
    · simpa using hle
    · exact hcount.trans hmax

/-- Workers are marked; nobody waits for them yet. -/
theorem mark (h : PoolInv s) {newN outCap : ℤ} {slots : List Slot}
    (hmark : threadpoolMarkRetireLocked s newN outCap = (slots, s')) :
    PoolInv s' ∧ slots.Nodup ∧ (∀ slot ∈ slots, s'.tp.workerRetiring slot = true) ∧
      ∀ j, ∀ slot ∈ slots, slot ∉ (s'.joiner j).slots := by
  rcases threadpoolMarkRetireLocked_eq s newN outCap with hnone | ⟨new, heq, hnodup, hnew, hcount⟩
  · obtain ⟨rfl, rfl⟩ := Prod.mk.inj (hnone.symm.trans hmark)
    exact ⟨h, List.nodup_nil, by simp, by simp⟩
  obtain ⟨rfl, rfl⟩ := Prod.mk.inj (heq.symm.trans hmark)
  obtain ⟨hpos, hfloor, hle⟩ := h.bounds
  have hlive : s.tp.shutdown = false → LiveOk s.tp.workerAlive
      (override s.tp.workerRetiring new true) (fun slot => (s.worker slot).wake)
      (s.tp.nWorkers - new.length) := fun hshut => (h.live hshut).mark hnodup hnew
  have hbound : s.tp.floorWorkers ≤ s.tp.nWorkers - new.length := by
    rcases hcount with rfl | hcount
    · simpa using hfloor
    · exact hcount
  refine ⟨⟨?_, h.joins.mark, hlive, ⟨hpos, hbound, ?_⟩, fun hshut _ => ?_, h.refuses, h.drained, h.shut⟩,
    hnodup, fun slot hslot => override_of_mem hslot, fun j slot hslot hpending => ?_⟩
  · exact h.jobs.quiet ⟨rfl, rfl, rfl, id, rfl, rfl, rfl, rfl, fun slot => (s.worker slot).load_wake⟩
  · show s.tp.nWorkers - new.length ≤ max s.tp.floorWorkers tpSoftMax
    omega
  · exact (hlive hshut).awake (hpos.trans_le hbound) fun slot => (s.worker slot).wake_ne_waiting
  · have hretiring := h.joins.pending j slot hpending
    exact absurd (hretiring.symm.trans (hnew slot hslot).2) (by simp)

/-- The thread goes on to wait for the marked workers. -/
theorem enter (h : PoolInv s) (j : Joiner) {slots : List Slot} (hnodup : slots.Nodup)
    (hretiring : ∀ slot ∈ slots, s.tp.workerRetiring slot = true)
    (hfree : ∀ j', ∀ slot ∈ slots, slot ∉ (s.joiner j').slots) : PoolInv (s.joinRetired j slots) where
  jobs := h.jobs.quiet ⟨rfl, rfl, rfl, id, rfl, rfl, rfl, rfl, fun _ => rfl⟩
  joins := h.joins.enter hnodup hretiring hfree
  live := h.live
  bounds := h.bounds
  awake := h.awake
  refuses := h.refuses
  drained := h.drained
  shut := h.shut

theorem resize (h : PoolInv s) (j : Joiner) (creates : Slot → Bool) (newN : ℤ) :
    PoolInv (s.threadpoolResize j creates newN) := by
  unfold threadpoolResize
  by_cases hpos : newN ≤ 0
  · rw [if_pos hpos]
    exact h
  rw [if_neg hpos]
  by_cases hclosed : s.tp.shutdown = true ∨ s.tp.submitClosed = true
  · rw [if_pos hclosed]
    exact h
  rw [if_neg hclosed]
  dsimp only
  generalize hsoft : (if tpSoftMax < newN then tpSoftMax else newN) = softN
  generalize htarget : (if softN < s.tp.floorWorkers then s.tp.floorWorkers else softN) = target
  have hshut : s.tp.shutdown = false := Bool.eq_false_of_not_eq_true (not_or.mp hclosed).1
  have hmax : target ≤ max s.tp.floorWorkers tpSoftMax := by
    have hsoftMax : softN ≤ tpSoftMax := by
      rw [← hsoft]
      split <;> omega
    rw [← htarget]
    split <;> omega
  by_cases hmore : s.tp.nWorkers < target
  · rw [if_pos hmore]
    exact h.expand creates hshut hmax
  rw [if_neg hmore]
  by_cases hless : target < s.tp.nWorkers
  · rw [if_pos hless]
    cases hmark : threadpoolMarkRetireLocked s target tpAbsMax with
    | mk slots t =>
      obtain ⟨hinv, hnodup, hretiring, hfree⟩ := h.mark hmark
      exact hinv.enter j hnodup hretiring hfree
  · rw [if_neg hless]
    exact h

theorem sample (h : PoolInv s) (creates : Slot → Bool) : PoolInv (s.monitorSample creates) := by
  unfold monitorSample
  by_cases hexit : s.tp.monitorShouldExit = true ∨ s.tp.shutdown = true
  · rw [if_pos hexit]
    exact h.counters _ _ _ _ _ _ _ _
  rw [if_neg hexit]
  have hshut : s.tp.shutdown = false := Bool.eq_false_of_not_eq_true (not_or.mp hexit).2
  by_cases hskip : 0 < s.tp.skipSamples
  · rw [if_pos hskip]
    exact h.counters _ _ _ _ _ _ _ _
  rw [if_neg hskip]
  dsimp only
  generalize (if 0 < s.tp.nWorkers then (s.tp.activeWorkers * 100).tdiv s.tp.nWorkers else 0) = utilPct
  by_cases hhigh : tpHighWaterPct ≤ utilPct
  · rw [if_pos hhigh]
    by_cases hexpand : tpHighConsecutive ≤ s.tp.highConsecutive + 1 ∧ s.tp.nWorkers < tpSoftMax
    · rw [if_pos hexpand]
      generalize htarget : (if tpSoftMax < s.tp.nWorkers + tpStep then tpSoftMax
        else s.tp.nWorkers + tpStep) = target
      have hcounters : PoolInv { s with
          tp := { s.tp with highConsecutive := s.tp.highConsecutive + 1, lowConsecutive := 0 } } :=
        h.counters _ _ _ _ _ _ _ _
      have hmax : target ≤ max s.tp.floorWorkers tpSoftMax := by
        rw [← htarget]
        split <;> omega
      have hexpanded := hcounters.expand creates hshut hmax
      generalize (threadpoolExpandLocked creates { s with
        tp := { s.tp with highConsecutive := s.tp.highConsecutive + 1, lowConsecutive := 0 } }
        target).2 = t at hexpanded ⊢
      exact hexpanded.counters _ _ _ _ _ _ _ _
    · rw [if_neg hexpand]
      exact h.counters _ _ _ _ _ _ _ _
  rw [if_neg hhigh]
  by_cases hlow : utilPct ≤ tpLowWaterPct
  · rw [if_pos hlow]
    by_cases hretire : tpLowConsecutive ≤ s.tp.lowConsecutive + 1 ∧ s.tp.floorWorkers < s.tp.nWorkers
    · rw [if_pos hretire]
      generalize htarget : (if s.tp.nWorkers - tpStep < s.tp.floorWorkers then s.tp.floorWorkers
        else s.tp.nWorkers - tpStep) = target
      have hcounters : PoolInv { s with
          tp := { s.tp with lowConsecutive := s.tp.lowConsecutive + 1, highConsecutive := 0 } } :=
        h.counters _ _ _ _ _ _ _ _
      cases hmark : threadpoolMarkRetireLocked { s with
          tp := { s.tp with lowConsecutive := s.tp.lowConsecutive + 1, highConsecutive := 0 } }
          target tpStep with
      | mk slots t =>
        obtain ⟨hinv, hnodup, hretiring, hfree⟩ := hcounters.mark hmark
        have hskipped := hinv.counters t.tp.queueMax t.tp.rejectedTotal t.tp.monitorStarted
          t.tp.monitorShouldExit t.tp.highConsecutive 0 tpHysteresisSamples t.monitorExited
        exact hskipped.enter .monitor hnodup hretiring hfree
    · rw [if_neg hretire]
      exact h.counters _ _ _ _ _ _ _ _
  · rw [if_neg hlow]
    exact h.counters _ _ _ _ _ _ _ _

theorem join (h : PoolInv s) {j : Joiner} (hstep : s.joinReturns j = some s') : PoolInv s' := by
  obtain ⟨slot, slots, hj, hexited, rfl⟩ := joinReturns_cases hstep
  exact ⟨h.jobs.quiet ⟨rfl, rfl, rfl, id, rfl, rfl, rfl, rfl, fun _ => rfl⟩,
    h.joins.joinReturns hj hexited, h.live, h.bounds, h.awake, h.refuses, h.drained, h.shut⟩

theorem clear (h : PoolInv s) {j : Joiner} (hstep : s.clearRetired j = some s') : PoolInv s' := by
  obtain ⟨slot, slots, hj, rfl⟩ := clearRetired_cases hstep
  have hexited : s.worker slot = .exited := by
    refine h.joins.joined j ?_ slot ?_ <;> rw [hj]
    rfl
  have hretiring : s.tp.workerRetiring slot = true := by
    refine h.joins.pending j slot ?_
    rw [hj]
    exact List.mem_cons_self
  refine ⟨h.jobs.quiet ?_, h.joins.clear hj, fun hshut => (h.live hshut).clear hretiring, h.bounds,
    fun hshut hhead => (h.awake hshut hhead).clear hretiring, h.refuses, h.drained, h.shut⟩
  exact ⟨rfl, rfl, rfl, id, rfl, rfl, rfl, rfl,
    (Quiet.setWorker (w := .absent) (by rw [hexited]; rfl)).load⟩

/-! ## The end -/

/-- The thread that shuts the pool down goes on. -/
theorem setCloser (h : PoolInv s) {closer : Closer}
    (hrefuses : closer.refusesSubmit = true → s.tp.submitClosed = true)
    (hdrained : closer.hasDrained = true → s.tp.queue.head = none ∧ s.tp.activeWorkers = 0)
    (hshut : ∀ call slots, closer = .joining call slots → s.tp.shutdown = true) :
    PoolInv { s with closer := closer } where
  jobs := h.jobs.quiet ⟨rfl, rfl, rfl, id, rfl, rfl, rfl, rfl, fun _ => rfl⟩
  joins := h.joins
  live := h.live
  bounds := h.bounds
  awake := h.awake
  refuses := hrefuses
  drained := hdrained
  shut := hshut

/-- The thread that shuts the pool down goes on, and nothing depends on where it is. -/
theorem keepCloser (h : PoolInv s) {closer : Closer}
    (hrefuses : closer.refusesSubmit = s.closer.refusesSubmit)
    (hdrained : closer.hasDrained = s.closer.hasDrained)
    (hjoining : ∀ call slots, closer ≠ .joining call slots) : PoolInv { s with closer := closer } :=
  h.setCloser (fun hr => h.refuses (hrefuses ▸ hr)) (fun hd => h.drained (hdrained ▸ hd))
    fun call slots heq => absurd heq (hjoining call slots)

/-- The queue is seen empty, and no worker has a job. -/
theorem seesNoJob (h : PoolInv s) (hdepth : ¬ 0 < s.tp.queueDepth) (hactive : ¬ 0 < s.tp.activeWorkers) :
    s.tp.queue.head = none ∧ s.tp.activeWorkers = 0 := by
  obtain ⟨jobs, hholds, hlen, -⟩ := h.jobs.queue
  have hcount := h.jobs.active
  refine ⟨hholds.eq_nil_iff.mp (List.eq_nil_of_length_eq_zero ?_), ?_⟩ <;> omega

theorem monitorStopped_refusesSubmit (next : Option Shutdown) :
    (monitorStopped next).refusesSubmit = (Closer.stopMonitor next).refusesSubmit := by
  cases next <;> simp [monitorStopped, Closer.refusesSubmit]

theorem monitorStopped_hasDrained (next : Option Shutdown) :
    (monitorStopped next).hasDrained = (Closer.stopMonitor next).hasDrained := by
  cases next <;> simp [monitorStopped, Closer.hasDrained]

theorem monitorStopped_ne_joining (next : Option Shutdown) (call : Shutdown) (slots : List Slot) :
    monitorStopped next ≠ .joining call slots := by
  cases next <;> simp [monitorStopped]

/-- The pool is shut down. -/
theorem shutDown (h : PoolInv s) {call : Shutdown} (hc : s.closer = .closing call) :
    PoolInv (broadcastNonempty { s with
      tp := { s.tp with shutdown := true }
      closer := .joining call (List.finRange tpAbsMax) }) where
  jobs := h.jobs.quiet
    ⟨rfl, rfl, rfl, id, rfl, rfl, rfl, rfl, fun slot => (s.worker slot).load_wake⟩
  joins := h.joins.wake
  live := fun hshut => absurd hshut (by simp [broadcastNonempty])
  bounds := h.bounds
  awake := fun hshut => absurd hshut (by simp [broadcastNonempty])
  refuses := fun hr => h.refuses (by rw [hc]; exact hr)
  drained := fun hd => h.drained (by rw [hc]; exact hd)
  shut := fun _ _ _ => rfl

/-- A worker is joined for good. -/
theorem joinWorker (h : PoolInv s) {call : Shutdown} {slot : Slot} {slots : List Slot}
    (hc : s.closer = .joining call (slot :: slots)) (hexited : s.worker slot = .exited) :
    PoolInv { s with
      tp := { s.tp with workerAlive := Function.update s.tp.workerAlive slot false }
      closer := .joining call slots } := by
  have hshut : s.tp.shutdown = true := h.shut call (slot :: slots) hc
  refine ⟨h.jobs.quiet ⟨rfl, rfl, rfl, id, rfl, rfl, rfl, rfl, fun _ => rfl⟩,
    ⟨fun i => ?_, h.joins.pending, h.joins.nodup, h.joins.disjoint, h.joins.joined⟩,
    fun hlive => absurd (hshut.symm.trans hlive) (by simp), h.bounds,
    fun hlive => absurd (hshut.symm.trans hlive) (by simp), fun hr => h.refuses ?_,
    fun hd => h.drained ?_, fun _ _ _ => hshut⟩
  · show Function.update s.tp.workerAlive slot false i = false → _
    by_cases hi : i = slot
    · rw [hi]
      exact fun _ => Or.inr hexited
    · rw [Function.update_of_ne hi]
      exact h.joins.dead i
  · rw [hc]
    exact hr
  · rw [hc]
    exact hd

theorem close (h : PoolInv s) (hstep : s.closerStep = some s') : PoolInv s' := by
  unfold closerStep at hstep
  cases hc : s.closer with
  | idle => simp [hc] at hstep
  | stopMonitor next =>
    simp only [hc] at hstep
    by_cases hstarted : s.tp.monitorStarted = true
    · rw [if_pos hstarted] at hstep
      rw [← Option.some.inj hstep]
      refine keepCloser (h.counters _ _ _ _ _ _ _ s.monitorExited) ?_ ?_ (by simp) <;> rw [hc] <;> rfl
    · rw [if_neg hstarted] at hstep
      rw [← Option.some.inj hstep]
      refine h.keepCloser ?_ ?_ (monitorStopped_ne_joining next) <;> rw [hc]
      · exact monitorStopped_refusesSubmit next
      · exact monitorStopped_hasDrained next
  | joinMonitor next =>
    simp only [hc] at hstep
    by_cases hexited : s.monitorExited = true
    · rw [if_pos hexited] at hstep
      rw [← Option.some.inj hstep]
      refine keepCloser (h.counters _ _ _ _ _ _ _ s.monitorExited) ?_ ?_
        (monitorStopped_ne_joining next) <;> rw [hc]
      · exact monitorStopped_refusesSubmit next
      · exact monitorStopped_hasDrained next
    · rw [if_neg hexited] at hstep
      exact absurd hstep (by simp)
  | drain =>
    simp only [hc] at hstep
    by_cases hjobs : 0 < s.tp.queueDepth ∨ 0 < s.tp.activeWorkers
    · rw [if_pos hjobs] at hstep
      rw [← Option.some.inj hstep]
      refine h.keepCloser ?_ ?_ (by simp) <;> rw [hc] <;> rfl
    · rw [if_neg hjobs] at hstep
      rw [← Option.some.inj hstep]
      obtain ⟨hdepth, hactive⟩ := not_or.mp hjobs
      exact h.setCloser (fun _ => h.refuses (by rw [hc]; rfl)) (fun _ => h.seesNoJob hdepth hactive)
        (by simp)
  | drainWaiting =>
    simp only [hc] at hstep
    rw [← Option.some.inj hstep]
    refine h.keepCloser ?_ ?_ (by simp) <;> rw [hc] <;> rfl
  | closing call =>
    simp only [hc] at hstep
    rw [← Option.some.inj hstep]
    exact h.shutDown hc
  | joining call slots =>
    cases slots with
    | nil =>
      simp only [hc] at hstep
      rw [← Option.some.inj hstep]
      refine h.keepCloser ?_ ?_ (by simp) <;> rw [hc] <;> rfl
    | cons slot slots =>
      simp only [hc] at hstep
      by_cases halive : s.tp.workerAlive slot = true
      · rw [if_pos halive] at hstep
        cases hw : s.worker slot <;> simp only [hw, reduceCtorEq] at hstep
        rw [← Option.some.inj hstep]
        exact h.joinWorker hc hw
      · rw [if_neg halive] at hstep
        rw [← Option.some.inj hstep]
        refine h.setCloser (fun hr => h.refuses ?_) (fun hd => h.drained ?_)
          fun _ _ _ => h.shut call (slot :: slots) hc
        · rw [hc]
          exact hr
        · rw [hc]
          exact hd
  | returned call => simp [hc] at hstep

theorem timeout (h : PoolInv s) (hstep : s.drainTimeout = some s') : PoolInv s' := by
  unfold drainTimeout at hstep
  cases hc : s.closer <;> simp only [hc, reduceCtorEq] at hstep
  rw [← Option.some.inj hstep]
  refine h.keepCloser ?_ ?_ (by simp) <;> rw [hc] <;> rfl

/-! ## Runs -/

/-- **One step keeps the invariant.** -/
theorem step (h : PoolInv s) {a : Action β} (hstep : s.step a = some s') : PoolInv s' := by
  unfold PoolSystem.step at hstep
  by_cases hfreed : s.isFreed = true
  · rw [if_pos hfreed] at hstep
    exact absurd hstep (by simp)
  rw [if_neg hfreed] at hstep
  cases a with
  | submit body addr woken =>
    obtain ⟨⟨accepted, t⟩, hsubmit, rfl⟩ := Option.map_eq_some_iff.mp hstep
    exact h.submit hsubmit
  | look slot => exact h.look hstep
  | start slot => exact h.start hstep
  | «return» slot => exact h.comeBack hstep
  | finish slot => exact h.finish hstep
  | wake slot => exact h.wake hstep
  | resize id creates newN =>
    obtain ⟨-, heq⟩ := Option.ite_none_right_eq_some.mp hstep
    rw [← Option.some.inj heq]
    exact h.resize _ creates newN
  | sample creates =>
    obtain ⟨-, heq⟩ := Option.ite_none_right_eq_some.mp hstep
    rw [← Option.some.inj heq]
    exact h.sample creates
  | join j => exact h.join hstep
  | clear j => exact h.clear hstep
  | setQueueMax max =>
    rw [← Option.some.inj hstep]
    unfold threadpoolSetQueueMax
    by_cases hmax : max < 0
    · rw [if_pos hmax]
      exact h
    · rw [if_neg hmax]
      exact h.counters _ _ _ _ _ _ _ _
  | shutdown =>
    obtain ⟨hidle, heq⟩ := Option.ite_none_right_eq_some.mp hstep
    rw [← Option.some.inj heq]
    refine h.keepCloser ?_ ?_ (by simp) <;> rw [hidle] <;> rfl
  | shutdownGraceful =>
    obtain ⟨hidle, heq⟩ := Option.ite_none_right_eq_some.mp hstep
    rw [← Option.some.inj heq]
    exact ⟨⟨h.jobs.queue, h.jobs.taken, h.jobs.running, h.jobs.active⟩, h.joins, h.live, h.bounds,
      h.awake, fun _ => rfl, fun hd => absurd hd (by simp [Closer.hasDrained]), by simp⟩
  | close => exact h.close hstep
  | timeout => exact h.timeout hstep

/-- **The pool that `threadpool_create` makes meets it.** -/
theorem create {creates : Slot → Bool} {monitorCreated : Bool} {n : ℤ}
    (hcreate : threadpoolCreate creates monitorCreated n = some s) : PoolInv s := by
  unfold threadpoolCreate at hcreate
  by_cases hrange : n ≤ 0 ∨ (tpAbsMax : ℤ) < n
  · rw [if_pos hrange] at hcreate
    exact absurd hcreate (by simp)
  rw [if_neg hrange] at hcreate
  have hlive : LiveOk (threadpoolInit n : PoolSystem β).tp.workerAlive
      (threadpoolInit n : PoolSystem β).tp.workerRetiring (threadpoolInit n : PoolSystem β).worker 0 := by
    refine ⟨fun _ => iff_of_true rfl rfl, ?_, ?_, ?_, ?_⟩ <;> simp [threadpoolInit, stayingSlots]
  obtain ⟨new, heq, hnodup, hnew, -⟩ := threadpoolExpandLocked_eq creates n hlive.aliveOfRetiring
  rw [heq] at hcreate
  dsimp only at hcreate
  by_cases hfail : (new.length : ℤ) ≠ n ∨ monitorCreated = false
  · rw [if_pos hfail] at hcreate
    exact absurd hcreate (by simp)
  rw [if_neg hfail] at hcreate
  rw [← Option.some.inj hcreate]
  have hlen : (new.length : ℤ) = n := not_ne_iff.mp (not_or.mp hfail).1
  have hpos : 0 < n := not_le.mp (not_or.mp hrange).1
  have hcount : (0 : ℤ) + new.length = n := (zero_add _).trans hlen
  have hjobs : JobsOk (threadpoolInit n : PoolSystem β) := by
    refine ⟨⟨[], LinkedQueue.holds_empty, rfl, rfl⟩, ?_, ?_, ?_⟩ <;>
      simp [threadpoolInit, takenTickets, runningTickets, busySlots, Worker.takenTicket,
        Worker.runningTicket, Worker.isBusy]
  have hload : ∀ slot, (override (threadpoolInit n : PoolSystem β).worker new .ready slot).load
      = ((threadpoolInit n : PoolSystem β).worker slot).load := by
    intro slot
    unfold override
    split <;> rfl
  have hjoins : JoinsOk (threadpoolInit n : PoolSystem β).tp.workerAlive
      (threadpoolInit n : PoolSystem β).tp.workerRetiring (threadpoolInit n : PoolSystem β).worker
      (threadpoolInit n : PoolSystem β).joiner := by
    refine ⟨fun _ _ => Or.inl rfl, ?_, ?_, ?_, ?_⟩ <;> simp [threadpoolInit]
  refine ⟨hjobs.quiet ⟨rfl, rfl, rfl, id, rfl, rfl, rfl, rfl, hload⟩, hjoins.spawnAll fun _ _ => rfl,
    fun _ => hlive.spawnAll hnodup hnew, ⟨hpos, hcount.ge, hcount.le.trans (le_max_left _ _)⟩,
    fun _ hhead => absurd rfl hhead, ?_, ?_, ?_⟩ <;>
    simp [threadpoolInit, spawnAll, Closer.refusesSubmit, Closer.hasDrained]

/-- **So does the pool after any steps of any threads.** -/
theorem run (h : PoolInv s) {actions : List (Action β)}
    (hrun : Runs.run PoolSystem.step s actions = some s') : PoolInv s' :=
  Runs.preserves (fun _ _ _ hinv hstep => hinv.step hstep) h hrun

end PoolInv

section Results

variable {creates : Slot → Bool} {monitorCreated : Bool} {n : ℤ} {s₀ s : PoolSystem β}
  {actions : List (PoolSystem.Action β)}

/-- **Jobs are taken in the order in which they were accepted, and each is started once at most.
When `threadpool_shutdown_graceful` returns 0, each accepted job has run to its end once.** -/
theorem threadpool_run_once (hcreate : threadpoolCreate creates monitorCreated n = some s₀)
    (hrun : Runs.run PoolSystem.step s₀ actions = some s) :
    s.dequeued = List.range s.dequeued.length ∧ s.dequeued.length ≤ s.accepted ∧
      s.started.Nodup ∧ s.started ⊆ s.dequeued ∧
      (s.closer = .returned (.graceful false) → s.completed.Perm (List.range s.accepted)) := by
  have hinv := (PoolInv.create hcreate).run hrun
  obtain ⟨hnodup, hsub⟩ := hinv.jobs.started_nodup
  refine ⟨hinv.jobs.dequeued_eq, hinv.jobs.length_dequeued_le, hnodup, hsub, fun hreturned => ?_⟩
  obtain ⟨hhead, hactive⟩ := hinv.drained (by rw [hreturned]; rfl)
  exact hinv.jobs.completed_perm hhead hactive

/-- Two jobs on two workers, the second one done first, and a graceful shutdown that waits for the
other one. -/
def drainRun : List (PoolSystem.Action Unit) :=
  [.submit () 0 none, .submit () 1 none, .look 0, .look 1, .start 1, .start 0, .return 1, .finish 1,
    .return 0, .shutdownGraceful, .close, .sample fun _ => true, .close, .close, .finish 0, .close,
    .close, .close, .look 0, .look 1] ++ List.replicate 65 .close

theorem threadpool_run_once_two : ∃ s₀ s : PoolSystem Unit,
    threadpoolCreate (fun _ => true) true 2 = some s₀ ∧
      Runs.run PoolSystem.step s₀ drainRun = some s ∧ s.dequeued = List.range 2 ∧
      s.completed.Perm (List.range 2) := by
  have hall : ((threadpoolCreate (fun _ => true) true 2).bind fun s₀ =>
      (Runs.run PoolSystem.step s₀ drainRun).map fun s =>
        (s.closer, s.dequeued.length, s.accepted))
      = some (.returned (.graceful false), 2, 2) := by decide +kernel
  obtain ⟨s₀, hcreate, hmap⟩ := Option.bind_eq_some_iff.mp hall
  obtain ⟨s, hrun, hs⟩ := Option.map_eq_some_iff.mp hmap
  obtain ⟨hcloser, hlast⟩ := Prod.mk.inj hs
  obtain ⟨hdequeued, haccepted⟩ := Prod.mk.inj hlast
  obtain ⟨horder, -, -, -, hdone⟩ := threadpool_run_once hcreate hrun
  rw [hdequeued] at horder
  exact ⟨s₀, s, hcreate, hrun, horder, haccepted ▸ hdone hcloser⟩

/-- **While the pool is not shut down, a job in the queue has a worker that stays and that does not
wait.** -/
theorem threadpool_run_awake (hcreate : threadpoolCreate creates monitorCreated n = some s₀)
    (hrun : Runs.run PoolSystem.step s₀ actions = some s) (hshut : s.tp.shutdown = false)
    (hqueue : s.tp.queue.head ≠ none) :
    ∃ slot, s.tp.workerAlive slot = true ∧ s.tp.workerRetiring slot = false ∧
      s.worker slot ≠ .waiting ∧ s.worker slot ≠ .absent ∧ s.worker slot ≠ .exited := by
  have hinv := (PoolInv.create hcreate).run hrun
  obtain ⟨slot, halive, hretiring, hawake⟩ := hinv.awake hshut hqueue
  refine ⟨slot, halive, hretiring, fun heq => ?_, fun heq => ?_, fun heq => ?_⟩ <;>
    simp [heq, Worker.isAwake] at hawake

/-- Both workers wait, and a job comes. -/
def signalRun : List (PoolSystem.Action Unit) := [.look 1, .look 0, .submit () 1 (some 0)]

theorem threadpool_run_awake_two : ∃ s₀ s : PoolSystem Unit,
    threadpoolCreate (fun _ => true) true 2 = some s₀ ∧
      Runs.run PoolSystem.step s₀ signalRun = some s ∧
      ∃ slot, s.tp.workerAlive slot = true ∧ s.tp.workerRetiring slot = false ∧
        s.worker slot ≠ .waiting ∧ s.worker slot ≠ .absent ∧ s.worker slot ≠ .exited := by
  have hall : ((threadpoolCreate (fun _ => true) true 2).bind fun s₀ =>
      (Runs.run PoolSystem.step s₀ signalRun).map fun s => (s.tp.shutdown, s.tp.queue.head))
      = some (false, some 1) := by decide +kernel
  obtain ⟨s₀, hcreate, hmap⟩ := Option.bind_eq_some_iff.mp hall
  obtain ⟨s, hrun, hs⟩ := Option.map_eq_some_iff.mp hmap
  obtain ⟨hshut, hhead⟩ := Prod.mk.inj hs
  exact ⟨s₀, s, hcreate, hrun, threadpool_run_awake hcreate hrun hshut (by simp [hhead])⟩

/-- **While the pool is not shut down, its counters are right: of the workers that stay, of the
jobs in the queue, whose last one is the tail, and of the workers with a job. An accepted job does
not leave more in the queue than allowed.** -/
theorem threadpool_run_counts (hcreate : threadpoolCreate creates monitorCreated n = some s₀)
    (hrun : Runs.run PoolSystem.step s₀ actions = some s) (hshut : s.tp.shutdown = false) :
    s.tp.nWorkers = (stayingSlots s.tp.workerAlive s.tp.workerRetiring).card ∧
      s.tp.floorWorkers ≤ s.tp.nWorkers ∧ s.tp.nWorkers ≤ max s.tp.floorWorkers tpSoftMax ∧
      (∃ jobs, s.tp.queue.Holds jobs ∧ s.tp.queueDepth = jobs.length ∧
        (s.tp.queue.tail = none ↔ jobs = [])) ∧
      s.tp.activeWorkers = (busySlots s.worker).card ∧
      ∀ body addr woken t, s.threadpoolSubmit body addr woken = some (true, t) →
        0 < t.tp.queueMax → t.tp.queueDepth ≤ t.tp.queueMax := by
  have hinv := (PoolInv.create hcreate).run hrun
  obtain ⟨-, hfloor, hmax⟩ := hinv.bounds
  obtain ⟨jobs, hholds, hdepth, -⟩ := hinv.jobs.queue
  exact ⟨(hinv.live hshut).count, hfloor, hmax, ⟨jobs, hholds, hdepth, hholds.tail_eq_none_iff⟩,
    hinv.jobs.active, fun _ _ _ _ hsubmit hpos => PoolSystem.queueDepth_le_of_submit hsubmit hpos⟩

/-- The pool grows to four workers, is made smaller again, and one of the two that retire is
joined. -/
def resizeRun : List (PoolSystem.Action Unit) :=
  [.submit () 7 none, .resize 0 (fun _ => true) 4, .resize 0 (fun _ => true) 1, .look 0, .look 3,
    .submit () 9 none, .join (.caller 0), .clear (.caller 0)]

theorem threadpool_run_counts_two : ∃ s₀ s : PoolSystem Unit,
    threadpoolCreate (fun _ => true) true 2 = some s₀ ∧
      Runs.run PoolSystem.step s₀ resizeRun = some s ∧
      s.tp.nWorkers = (stayingSlots s.tp.workerAlive s.tp.workerRetiring).card ∧
      s.tp.activeWorkers = (busySlots s.worker).card := by
  have hall : ((threadpoolCreate (fun _ => true) true 2).bind fun s₀ =>
      (Runs.run PoolSystem.step s₀ resizeRun).map fun s => s.tp.shutdown) = some false := by
    decide +kernel
  obtain ⟨s₀, hcreate, hmap⟩ := Option.bind_eq_some_iff.mp hall
  obtain ⟨s, hrun, hshut⟩ := Option.map_eq_some_iff.mp hmap
  obtain ⟨hcount, -, -, -, hactive, -⟩ := threadpool_run_counts hcreate hrun hshut
  exact ⟨s₀, s, hcreate, hrun, hcount, hactive⟩

end Results

end MiniSql

import Mathlib.Algebra.Order.BigOperators.Group.Finset
import MiniSql.Threadpool.Runs

/-!
# A shutdown comes to its end

Once `threadpool_shutdown` or `threadpool_shutdown_graceful` is called, no thread waits for ever:
wherever the threads are, the steps that they take by themselves lead to the return. Nobody has to
submit or resize, no wait has to run out of time, and the wait for an empty queue does not have to
end without a reason.

## Main definitions

* `Closer.outcome` — which call the thread returns from.
* `CloseOk` — the invariant: whom the thread waits for is on its way.
* `PoolSystem.Own` — the steps that the threads take by themselves.
* `PoolSystem.effort` — how many such steps are left.

## Main results

* `CloseOk.run` — a run keeps the invariant.
* `PoolSystem.exists_nearer` — before the return some thread can take a step, and it brings the
  return nearer.
* `threadpool_run_returns` — every run in which the pool is shut down can be carried on to the return.
-/

namespace MiniSql

variable {β : Type*}

/-! ## Whom the thread waits for -/

/-- What the thread that shuts the pool down will return from, if it does not run out of time. -/
def Closer.outcome : Closer → Option Shutdown
  | .idle => none
  | .stopMonitor none | .joinMonitor none | .drain | .drainWaiting => some (.graceful false)
  | .stopMonitor (some call) | .joinMonitor (some call) | .closing call | .joining call _
  | .returned call => some call

/-- `shutdown` is not set yet. -/
def Closer.beforeShutdown : Closer → Bool
  | .joining _ _ | .returned _ => false
  | _ => true

theorem Closer.outcome_wake (c : Closer) : c.wake.outcome = c.outcome := by
  cases c <;> rfl

theorem Closer.WokenTo.outcome {c c' : Closer} (h : c.WokenTo c') : c'.outcome = c.outcome := by
  rcases h with rfl | rfl
  · rfl
  · exact c.outcome_wake

theorem outcome_monitorStopped (next : Option Shutdown) :
    (PoolSystem.monitorStopped next).outcome = (Closer.stopMonitor next).outcome := by
  cases next <;> rfl

/-- Whom the thread that shuts the pool down waits for is on its way. -/
structure CloseOk (s : PoolSystem β) : Prop where
  exits : ∀ next, s.closer = .joinMonitor next → s.tp.monitorShouldExit = true
  before : s.closer.beforeShutdown = true → s.tp.shutdown = false
  leaves : s.tp.shutdown = true → ∀ slot, s.worker slot ≠ .waiting
  alive : s.tp.shutdown = true → ∀ slot, s.tp.workerAlive slot = true → s.worker slot ≠ .absent
  waits : s.closer = .drainWaiting → 0 < s.tp.queueDepth ∨ 0 < s.tp.activeWorkers

/-- What the other threads do beside the one that shuts the pool down. -/
structure Beside (s s' : PoolSystem β) : Prop where
  closer : s.closer.WokenTo s'.closer
  shutdown : s'.tp.shutdown = s.tp.shutdown
  exits : s'.tp.monitorShouldExit = s.tp.monitorShouldExit
  leaves : s.tp.shutdown = true → ∀ slot, s.worker slot ≠ .waiting → s'.worker slot ≠ .waiting
  alive : s.tp.shutdown = true → ∀ slot, s'.tp.workerAlive slot = true →
    s.tp.workerAlive slot = true ∧ (s.worker slot ≠ .absent → s'.worker slot ≠ .absent)
  waits : s'.closer = .drainWaiting → 0 < s.tp.queueDepth ∨ 0 < s.tp.activeWorkers →
    0 < s'.tp.queueDepth ∨ 0 < s'.tp.activeWorkers

namespace Beside

open PoolSystem

variable {s s' : PoolSystem β}

theorem refl (s : PoolSystem β) : Beside s s :=
  ⟨Or.inl rfl, rfl, rfl, fun _ _ => id, fun _ _ h => ⟨h, id⟩, fun _ => id⟩

/-- Nothing changes that a shutdown waits for. -/
theorem counters (s : PoolSystem β) (queueMax : ℤ) (rejectedTotal : ℕ)
    (highConsecutive lowConsecutive skipSamples : ℤ) (monitorExited : Bool)
    (joiner : Joiner → Joining) :
    Beside s { s with
      tp := { s.tp with
        queueMax := queueMax
        rejectedTotal := rejectedTotal
        highConsecutive := highConsecutive
        lowConsecutive := lowConsecutive
        skipSamples := skipSamples }
      monitorExited := monitorExited
      joiner := joiner } :=
  ⟨Or.inl rfl, rfl, rfl, fun _ _ => id, fun _ _ h => ⟨h, id⟩, fun _ => id⟩

/-- While `shutdown` is not set, only the jobs and the thread itself matter. -/
theorem ofLive (hshut : s.tp.shutdown = false) (hcloser : s'.closer = s.closer)
    (hshut' : s'.tp.shutdown = false) (hexits : s'.tp.monitorShouldExit = s.tp.monitorShouldExit)
    (hdepth : s.tp.queueDepth ≤ s'.tp.queueDepth)
    (hactive : s.tp.activeWorkers ≤ s'.tp.activeWorkers) : Beside s s' where
  closer := Or.inl hcloser
  shutdown := hshut'.trans hshut.symm
  exits := hexits
  leaves := fun h => absurd (hshut.symm.trans h) (by simp)
  alive := fun h => absurd (hshut.symm.trans h) (by simp)
  waits := by
    intro _ h
    omega

/-- A worker that is there moves. -/
theorem setWorker {slot : Slot} {w : Worker β} {closer : Closer} {active : ℤ}
    {started completed : List ℕ} (hw : w ≠ .absent)
    (hwaiting : s.tp.shutdown = true → w ≠ .waiting) (hcloser : s.closer.WokenTo closer)
    (hwaits : closer = .drainWaiting → 0 < s.tp.queueDepth ∨ 0 < s.tp.activeWorkers →
      0 < s.tp.queueDepth ∨ 0 < active) :
    Beside s { s with
      tp := { s.tp with activeWorkers := active }
      worker := Function.update s.worker slot w
      closer := closer
      started := started
      completed := completed } where
  closer := hcloser
  shutdown := rfl
  exits := rfl
  leaves := by
    intro hshut i hi
    show Function.update s.worker slot w i ≠ .waiting
    by_cases his : i = slot
    · rw [his, Function.update_self]
      exact hwaiting hshut
    · rwa [Function.update_of_ne his]
  alive := by
    intro _ i halive
    refine ⟨halive, fun hi => ?_⟩
    show Function.update s.worker slot w i ≠ .absent
    by_cases his : i = slot
    · rw [his, Function.update_self]
      exact hw
    · rwa [Function.update_of_ne his]
  waits := hwaits

theorem submit {body : β} {addr : ℕ} {woken : Option Slot} {accepted : Bool}
    (hstep : s.threadpoolSubmit body addr woken = some (accepted, s')) : Beside s s' := by
  unfold threadpoolSubmit at hstep
  by_cases hclosed : s.tp.shutdown = true ∨ s.tp.submitClosed = true
  · rw [if_pos hclosed] at hstep
    obtain ⟨-, rfl⟩ := Prod.mk.inj (Option.some.inj hstep)
    exact refl s
  rw [if_neg hclosed] at hstep
  by_cases hfull : 0 < s.tp.queueMax ∧ s.tp.queueMax ≤ s.tp.queueDepth
  · rw [if_pos hfull] at hstep
    obtain ⟨-, rfl⟩ := Prod.mk.inj (Option.some.inj hstep)
    exact counters s _ _ _ _ _ _ _
  rw [if_neg hfull] at hstep
  by_cases hcell : (s.tp.queue.cells addr).isSome = true
  · rw [if_pos hcell] at hstep
    exact absurd hstep (by simp)
  rw [if_neg hcell] at hstep
  obtain ⟨t, hsignal, ht⟩ := Option.map_eq_some_iff.mp hstep
  obtain ⟨-, rfl⟩ := Prod.mk.inj ht
  have hshut : s.tp.shutdown = false := Bool.eq_false_of_not_eq_true (not_or.mp hclosed).1
  rcases signalNonempty_cases hsignal with ⟨slot, -, rfl⟩ | ⟨-, rfl⟩
  all_goals
    refine ofLive hshut rfl hshut rfl ?_ le_rfl
    show s.tp.queueDepth ≤ s.tp.queueDepth + 1
    omega

theorem look {slot : Slot} (hstep : s.workerLook slot = some s') : Beside s s' := by
  obtain ⟨hready, hcases⟩ := workerLook_cases hstep
  rcases hcases with ⟨-, hshut, -, rfl⟩ | ⟨-, rfl⟩ | ⟨hshut, -, job, queue, -, rfl⟩
  · exact setWorker (by simp) (by simp [hshut]) (Or.inl rfl) fun _ => id
  · exact setWorker (by simp) (by simp) (Or.inl rfl) fun _ => id
  · rw [workerTake_eq]
    refine ⟨Closer.wokenTo_ite _ _, rfl, rfl, fun h => ?_, fun h => ?_, fun hwaits h => ?_⟩
    · exact absurd (hshut.symm.trans h) (by simp)
    · exact absurd (hshut.symm.trans h) (by simp)
    · show 0 < s.tp.queueDepth - 1 ∨ 0 < s.tp.activeWorkers + 1
      dsimp only at hwaits
      by_cases hzero : s.tp.queueDepth - 1 = 0
      · rw [if_pos hzero] at hwaits
        cases hc : s.closer <;> simp [hc, Closer.wake] at hwaits
      · omega

theorem start {slot : Slot} (hstep : s.workerStart slot = some s') : Beside s s' := by
  obtain ⟨job, -, rfl⟩ := workerStart_cases hstep
  exact setWorker (by simp) (by simp) (Or.inl rfl) fun _ => id

theorem comeBack {slot : Slot} (hstep : s.workerReturn slot = some s') : Beside s s' := by
  obtain ⟨job, -, rfl⟩ := workerReturn_cases hstep
  exact setWorker (by simp) (by simp) (Or.inl rfl) fun _ => id

theorem finish (hactive : s.tp.activeWorkers = (busySlots s.worker).card)
    (hdepth : 0 ≤ s.tp.queueDepth) {slot : Slot} (hstep : s.workerFinish slot = some s') :
    Beside s s' := by
  obtain ⟨hw, rfl⟩ := workerFinish_cases hstep
  rw [workerDone_eq]
  apply setWorker (by simp) (by simp) (Closer.wokenTo_ite _ _)
  intro hwaits h
  have hpos : 0 < (busySlots s.worker).card :=
    Finset.card_pos.mpr ⟨slot, mem_busySlots.mpr (by rw [hw]; rfl)⟩
  by_cases hlast : s.tp.queueDepth = 0 ∧ s.tp.activeWorkers - 1 = 0
  · rw [if_pos hlast] at hwaits
    cases hc : s.closer <;> simp [hc, Closer.wake] at hwaits
  · omega

theorem wake {slot : Slot} (hstep : s.workerWake slot = some s') : Beside s s' := by
  unfold workerWake at hstep
  by_cases hwaiting : s.isWaiting slot = true
  · rw [if_pos hwaiting] at hstep
    rw [← Option.some.inj hstep]
    exact setWorker (by simp) (by simp) (Or.inl rfl) fun _ => id
  · rw [if_neg hwaiting] at hstep
    exact absurd hstep (by simp)

/-- More workers: nothing a shutdown waits for. -/
theorem expand (h : PoolInv s) (creates : Slot → Bool) (newN : ℤ) (hshut : s.tp.shutdown = false) :
    Beside s (threadpoolExpandLocked creates s newN).2 := by
  obtain ⟨new, heq, -⟩ := threadpoolExpandLocked_eq creates newN (h.live hshut).aliveOfRetiring
  rw [heq]
  exact ofLive hshut rfl hshut rfl le_rfl le_rfl

/-- Fewer workers. -/
theorem mark {newN outCap : ℤ} {slots : List Slot}
    (hmark : threadpoolMarkRetireLocked s newN outCap = (slots, s'))
    (hshut : s.tp.shutdown = false) : Beside s s' := by
  rcases threadpoolMarkRetireLocked_eq s newN outCap with hnone | ⟨new, heq, -⟩
  · obtain ⟨-, rfl⟩ := Prod.mk.inj (hnone.symm.trans hmark)
    exact refl s
  · obtain ⟨-, rfl⟩ := Prod.mk.inj (heq.symm.trans hmark)
    exact ofLive hshut rfl hshut rfl le_rfl le_rfl

/-- Other counters and joiners do not matter. -/
theorem thenCounters (h : Beside s s') (queueMax : ℤ) (rejectedTotal : ℕ)
    (highConsecutive lowConsecutive skipSamples : ℤ) (monitorExited : Bool)
    (joiner : Joiner → Joining) :
    Beside s { s' with
      tp := { s'.tp with
        queueMax := queueMax
        rejectedTotal := rejectedTotal
        highConsecutive := highConsecutive
        lowConsecutive := lowConsecutive
        skipSamples := skipSamples }
      monitorExited := monitorExited
      joiner := joiner } :=
  ⟨h.closer, h.shutdown, h.exits, h.leaves, h.alive, h.waits⟩

theorem resize (h : PoolInv s) (j : Joiner) (creates : Slot → Bool) (newN : ℤ) :
    Beside s (s.threadpoolResize j creates newN) := by
  unfold threadpoolResize
  by_cases hpos : newN ≤ 0
  · rw [if_pos hpos]
    exact refl s
  rw [if_neg hpos]
  by_cases hclosed : s.tp.shutdown = true ∨ s.tp.submitClosed = true
  · rw [if_pos hclosed]
    exact refl s
  rw [if_neg hclosed]
  dsimp only
  generalize (if _ < s.tp.floorWorkers then s.tp.floorWorkers else _) = target
  have hshut : s.tp.shutdown = false := Bool.eq_false_of_not_eq_true (not_or.mp hclosed).1
  by_cases hmore : s.tp.nWorkers < target
  · rw [if_pos hmore]
    exact expand h creates target hshut
  rw [if_neg hmore]
  by_cases hless : target < s.tp.nWorkers
  · rw [if_pos hless]
    cases hmark : threadpoolMarkRetireLocked s target tpAbsMax with
    | mk slots t => exact (mark hmark hshut).thenCounters _ _ _ _ _ _ _
  · rw [if_neg hless]
    exact refl s

theorem sample (h : PoolInv s) (creates : Slot → Bool) : Beside s (s.monitorSample creates) := by
  unfold monitorSample
  by_cases hexit : s.tp.monitorShouldExit = true ∨ s.tp.shutdown = true
  · rw [if_pos hexit]
    exact counters s _ _ _ _ _ _ _
  rw [if_neg hexit]
  have hshut : s.tp.shutdown = false := Bool.eq_false_of_not_eq_true (not_or.mp hexit).2
  by_cases hskip : 0 < s.tp.skipSamples
  · rw [if_pos hskip]
    exact counters s _ _ _ _ _ _ _
  rw [if_neg hskip]
  dsimp only
  generalize (if 0 < s.tp.nWorkers then (s.tp.activeWorkers * 100).tdiv s.tp.nWorkers else 0) = utilPct
  by_cases hhigh : tpHighWaterPct ≤ utilPct
  · rw [if_pos hhigh]
    by_cases hexpand : tpHighConsecutive ≤ s.tp.highConsecutive + 1 ∧ s.tp.nWorkers < tpSoftMax
    · rw [if_pos hexpand]
      have hcounters : PoolInv { s with
          tp := { s.tp with highConsecutive := s.tp.highConsecutive + 1, lowConsecutive := 0 } } :=
        h.counters _ _ _ _ _ _ _ _
      have hbeside := expand hcounters creates
        (if tpSoftMax < s.tp.nWorkers + tpStep then tpSoftMax else s.tp.nWorkers + tpStep) hshut
      exact (⟨hbeside.closer, hbeside.shutdown, hbeside.exits, hbeside.leaves, hbeside.alive,
        hbeside.waits⟩ : Beside s _).thenCounters _ _ _ _ _ _ _
    · rw [if_neg hexpand]
      exact counters s _ _ _ _ _ _ _
  rw [if_neg hhigh]
  by_cases hlow : utilPct ≤ tpLowWaterPct
  · rw [if_pos hlow]
    by_cases hretire : tpLowConsecutive ≤ s.tp.lowConsecutive + 1 ∧ s.tp.floorWorkers < s.tp.nWorkers
    · rw [if_pos hretire]
      generalize (if s.tp.nWorkers - tpStep < s.tp.floorWorkers then s.tp.floorWorkers
        else s.tp.nWorkers - tpStep) = target
      cases hmark : threadpoolMarkRetireLocked { s with
          tp := { s.tp with lowConsecutive := s.tp.lowConsecutive + 1, highConsecutive := 0 } }
          target tpStep with
      | mk slots t =>
        have hbeside := mark hmark hshut
        exact (⟨hbeside.closer, hbeside.shutdown, hbeside.exits, hbeside.leaves, hbeside.alive,
          hbeside.waits⟩ : Beside s _).thenCounters _ _ _ _ _ _ _
    · rw [if_neg hretire]
      exact counters s _ _ _ _ _ _ _
  · rw [if_neg hlow]
    exact counters s _ _ _ _ _ _ _

theorem join {j : Joiner} (hstep : s.joinReturns j = some s') : Beside s s' := by
  obtain ⟨slot, slots, -, -, rfl⟩ := joinReturns_cases hstep
  exact counters s _ _ _ _ _ _ _

theorem clear {j : Joiner} (hstep : s.clearRetired j = some s') : Beside s s' := by
  obtain ⟨slot, slots, -, rfl⟩ := clearRetired_cases hstep
  refine ⟨Or.inl rfl, rfl, rfl, fun _ i hi => ?_, fun _ i halive => ?_, fun _ => id⟩
  · show Function.update s.worker slot .absent i ≠ .waiting
    by_cases his : i = slot
    · rw [his, Function.update_self]
      simp
    · rwa [Function.update_of_ne his]
  · have hne : i ≠ slot := by
      intro his
      have hdead : Function.update s.tp.workerAlive slot false i = true := halive
      rw [his, Function.update_self] at hdead
      exact absurd hdead (by simp)
    have hold : Function.update s.tp.workerAlive slot false i = true := halive
    rw [Function.update_of_ne hne] at hold
    refine ⟨hold, fun hi => ?_⟩
    show Function.update s.worker slot .absent i ≠ .absent
    rwa [Function.update_of_ne hne]

end Beside

/-- What a step does to the thread that shuts the pool down: nothing, but it may wake it; it is
called; it goes on; or it runs out of time. -/
inductive CloserMove (s s' : PoolSystem β) : PoolSystem.Action β → Prop
  | beside {a : PoolSystem.Action β} (h : Beside s s') : CloserMove s s' a
  | shutdown (hidle : s.closer = .idle)
      (heq : s' = { s with closer := .stopMonitor (some .hard) }) : CloserMove s s' .shutdown
  | shutdownGraceful (hidle : s.closer = .idle)
      (heq : s' = { s with tp := { s.tp with submitClosed := true }, closer := .stopMonitor none }) :
      CloserMove s s' .shutdownGraceful
  | close (h : s.closerStep = some s') : CloserMove s s' .close
  | timeout (hc : s.closer = .drainWaiting)
      (heq : s' = { s with closer := .stopMonitor (some (.graceful true)) }) : CloserMove s s' .timeout

/-- **Every step does one of these.** -/
theorem closerMove_of_step {s s' : PoolSystem β} (hinv : PoolInv s) {a : PoolSystem.Action β}
    (hstep : s.step a = some s') : CloserMove s s' a := by
  unfold PoolSystem.step at hstep
  split at hstep
  · exact absurd hstep (by simp)
  cases a with
  | submit body addr woken =>
    obtain ⟨⟨accepted, t⟩, hsubmit, rfl⟩ := Option.map_eq_some_iff.mp hstep
    exact .beside (.submit hsubmit)
  | look slot => exact .beside (.look hstep)
  | start slot => exact .beside (.start hstep)
  | «return» slot => exact .beside (.comeBack hstep)
  | finish slot =>
    obtain ⟨jobs, -, hdepth, -⟩ := hinv.jobs.queue
    exact .beside (.finish hinv.jobs.active (by omega) hstep)
  | wake slot => exact .beside (.wake hstep)
  | resize id creates newN =>
    obtain ⟨-, heq⟩ := Option.ite_none_right_eq_some.mp hstep
    rw [← Option.some.inj heq]
    exact .beside (.resize hinv _ creates newN)
  | sample creates =>
    obtain ⟨-, heq⟩ := Option.ite_none_right_eq_some.mp hstep
    rw [← Option.some.inj heq]
    exact .beside (.sample hinv creates)
  | join j => exact .beside (.join hstep)
  | clear j => exact .beside (.clear hstep)
  | setQueueMax max =>
    rw [← Option.some.inj hstep]
    unfold PoolSystem.threadpoolSetQueueMax
    split
    · exact .beside (.refl s)
    · exact .beside (.counters s _ _ _ _ _ _ _)
  | shutdown =>
    obtain ⟨hidle, heq⟩ := Option.ite_none_right_eq_some.mp hstep
    exact .shutdown hidle (Option.some.inj heq).symm
  | shutdownGraceful =>
    obtain ⟨hidle, heq⟩ := Option.ite_none_right_eq_some.mp hstep
    exact .shutdownGraceful hidle (Option.some.inj heq).symm
  | close => exact .close hstep
  | timeout =>
    unfold PoolSystem.act PoolSystem.drainTimeout at hstep
    dsimp only at hstep
    cases hc : s.closer <;> simp only [hc, reduceCtorEq] at hstep
    exact .timeout hc (Option.some.inj hstep).symm

/-! ## The invariant along a run -/

namespace CloseOk

open PoolSystem

variable {s s' : PoolSystem β}

theorem beside (h : CloseOk s) (hb : Beside s s') : CloseOk s' where
  exits := by
    intro next hc
    rw [hb.exits]
    apply h.exits next
    rcases hb.closer with heq | heq
    · rw [← heq, hc]
    · cases hold : s.closer <;> simp_all [Closer.wake]
  before := by
    intro hbefore
    rw [hb.shutdown]
    apply h.before
    rcases hb.closer with heq | heq
    · rw [← heq, hbefore]
    · rw [heq] at hbefore
      cases hold : s.closer <;> simp_all [Closer.wake, Closer.beforeShutdown]
  leaves := fun hshut slot => hb.leaves (hb.shutdown ▸ hshut) slot (h.leaves (hb.shutdown ▸ hshut) slot)
  alive := by
    intro hshut slot halive
    have hold : s.tp.shutdown = true := hb.shutdown ▸ hshut
    obtain ⟨halive', hstays⟩ := hb.alive hold slot halive
    exact hstays (h.alive hold slot halive')
  waits := by
    intro hc
    apply hb.waits hc
    apply h.waits
    rcases hb.closer with heq | heq
    · rw [← heq, hc]
    · cases hold : s.closer <;> simp_all [Closer.wake]

/-- The thread that shuts the pool down goes on, short of setting `shutdown`. -/
theorem setCloser (h : CloseOk s) {closer : Closer} {submitClosed started exit : Bool}
    (hlive : s.tp.shutdown = false) (hexits : ∀ next, closer = .joinMonitor next → exit = true)
    (hwaits : closer = .drainWaiting → 0 < s.tp.queueDepth ∨ 0 < s.tp.activeWorkers) :
    CloseOk { s with
      tp := { s.tp with
        submitClosed := submitClosed
        monitorStarted := started
        monitorShouldExit := exit }
      closer := closer } where
  exits := hexits
  before := fun _ => hlive
  leaves := h.leaves
  alive := h.alive
  waits := hwaits

/-- All workers leave once the pool is shut down. -/
theorem shutDown (hinv : PoolInv s) (hlive : s.tp.shutdown = false) {call : Shutdown} :
    CloseOk (broadcastNonempty { s with
      tp := { s.tp with shutdown := true }
      closer := .joining call (List.finRange tpAbsMax) }) where
  exits := by simp [broadcastNonempty]
  before := by simp [broadcastNonempty, Closer.beforeShutdown]
  leaves := fun _ slot => (s.worker slot).wake_ne_waiting
  alive := by
    intro _ slot halive habsent
    have hdead := ((hinv.live hlive).absent slot).mp ((s.worker slot).wake_eq_absent.mp habsent)
    exact absurd (hdead.symm.trans halive) (by simp)
  waits := by simp [broadcastNonempty]

/-- A worker is joined, or was before. -/
theorem joined (h : CloseOk s) (call : Shutdown) (slots : List Slot) (alive : Slot → Bool)
    (halive : ∀ i, alive i = true → s.tp.workerAlive i = true) :
    CloseOk { s with tp := { s.tp with workerAlive := alive }, closer := .joining call slots } where
  exits := by simp
  before := by simp [Closer.beforeShutdown]
  leaves := h.leaves
  alive := fun hshut i hi => h.alive hshut i (halive i hi)
  waits := by simp

theorem close (h : CloseOk s) (hinv : PoolInv s) (hstep : s.closerStep = some s') : CloseOk s' := by
  unfold closerStep at hstep
  cases hc : s.closer with
  | idle => simp [hc] at hstep
  | stopMonitor next =>
    have hlive := h.before (by rw [hc]; rfl)
    simp only [hc] at hstep
    split at hstep
    · rw [← Option.some.inj hstep]
      exact h.setCloser hlive (fun _ _ => rfl) (by simp)
    · rw [← Option.some.inj hstep]
      apply h.setCloser hlive <;> cases next <;> simp [monitorStopped]
  | joinMonitor next =>
    have hlive := h.before (by rw [hc]; rfl)
    simp only [hc] at hstep
    split at hstep
    · rw [← Option.some.inj hstep]
      apply h.setCloser hlive <;> cases next <;> simp [monitorStopped]
    · exact absurd hstep (by simp)
  | drain =>
    have hlive := h.before (by rw [hc]; rfl)
    simp only [hc] at hstep
    split at hstep
    · rw [← Option.some.inj hstep]
      exact h.setCloser hlive (by simp) fun _ => by assumption
    · rw [← Option.some.inj hstep]
      exact h.setCloser hlive (by simp) (by simp)
  | drainWaiting =>
    have hlive := h.before (by rw [hc]; rfl)
    simp only [hc] at hstep
    rw [← Option.some.inj hstep]
    exact h.setCloser hlive (by simp) (by simp)
  | closing call =>
    have hlive := h.before (by rw [hc]; rfl)
    simp only [hc] at hstep
    rw [← Option.some.inj hstep]
    exact shutDown hinv hlive
  | joining call slots =>
    cases slots with
    | nil =>
      simp only [hc] at hstep
      rw [← Option.some.inj hstep]
      exact ⟨by simp, by simp [Closer.beforeShutdown], h.leaves, h.alive, by simp⟩
    | cons slot slots =>
      simp only [hc] at hstep
      split at hstep
      · split at hstep
        · rw [← Option.some.inj hstep]
          refine h.joined call slots _ fun i hi => ?_
          by_cases his : i = slot
          · rw [his, Function.update_self] at hi
            exact absurd hi (by simp)
          · rwa [Function.update_of_ne his] at hi
        · exact absurd hstep (by simp)
      · rw [← Option.some.inj hstep]
        exact h.joined call slots _ fun _ => id
  | returned call => simp [hc] at hstep

/-- **One step keeps the invariant.** -/
theorem step (h : CloseOk s) (hinv : PoolInv s) {a : Action β} (hstep : s.step a = some s') :
    CloseOk s' := by
  cases closerMove_of_step hinv hstep with
  | beside hbeside => exact h.beside hbeside
  | shutdown hidle heq | shutdownGraceful hidle heq =>
    rw [heq]
    exact h.setCloser (h.before (by rw [hidle]; rfl)) (by simp) (by simp)
  | close hclose => exact h.close hinv hclose
  | timeout hc heq =>
    rw [heq]
    exact h.setCloser (h.before (by rw [hc]; rfl)) (by simp) (by simp)

/-- Nobody shuts down a new pool. -/
theorem closer_create {creates : Slot → Bool} {monitorCreated : Bool} {n : ℤ}
    (hcreate : threadpoolCreate creates monitorCreated n = some s) :
    s.closer = .idle ∧ s.tp.shutdown = false := by
  unfold threadpoolCreate at hcreate
  split at hcreate
  · exact absurd hcreate (by simp)
  obtain ⟨new, heq, -⟩ := threadpoolExpandLocked_eq (s := (threadpoolInit n : PoolSystem β)) creates
    n (by simp [threadpoolInit])
  rw [heq] at hcreate
  dsimp only at hcreate
  split at hcreate
  · exact absurd hcreate (by simp)
  · rw [← Option.some.inj hcreate]
    exact ⟨rfl, rfl⟩

theorem create {creates : Slot → Bool} {monitorCreated : Bool} {n : ℤ}
    (hcreate : threadpoolCreate creates monitorCreated n = some s) : CloseOk s := by
  obtain ⟨hidle, hlive⟩ := closer_create hcreate
  exact ⟨by simp [hidle], fun _ => hlive, by simp [hlive], by simp [hlive], by simp [hidle]⟩

/-- **So does a run.** -/
theorem run (h : CloseOk s) (hinv : PoolInv s) {actions : List (Action β)}
    (hrun : Runs.run PoolSystem.step s actions = some s') : CloseOk s' := by
  have hboth : PoolInv s' ∧ CloseOk s' := by
    apply Runs.preserves _ _ hrun
    · intro t a t' hold hstep
      exact ⟨hold.1.step hstep, hold.2.step hold.1 hstep⟩
    · exact ⟨hinv, h⟩
  exact hboth.2

end CloseOk

/-! ## The steps that are left -/

/-- The steps of a worker until it waits, has left or looks again. -/
def Worker.effort : Worker β → ℕ
  | .absent | .exited => 0
  | .ready => 1
  | .waiting | .finished => 2
  | .running _ => 3
  | .taken _ => 4

/-- The steps of a thread in `threadpool_join_retired`. -/
def Joining.effort (j : Joining) : ℕ := 2 * j.slots.length + (!j.joined).toNat

/-- The steps of the thread that shuts the pool down. -/
def Closer.effort : Closer → ℕ
  | .idle | .returned _ => 0
  | .joining _ slots => slots.length + 1
  | .closing _ => 66
  | .joinMonitor (some _) => 67
  | .stopMonitor (some _) => 68
  | .drain => 69
  | .drainWaiting => 70
  | .joinMonitor none => 71
  | .stopMonitor none => 72

theorem Worker.effort_wake_le (w : Worker β) : w.wake.effort ≤ w.effort := by
  cases w <;> simp [Worker.wake, Worker.effort]

theorem Closer.effort_wake_le (c : Closer) : c.wake.effort ≤ c.effort := by
  cases c <;> simp [Closer.wake, Closer.effort]

theorem Closer.WokenTo.effort_le {c c' : Closer} (h : c.WokenTo c') : c'.effort ≤ c.effort := by
  rcases h with rfl | rfl
  · exact le_rfl
  · exact c.effort_wake_le

theorem effort_monitorStopped_lt (next : Option Shutdown) :
    (PoolSystem.monitorStopped next).effort < (Closer.joinMonitor next).effort := by
  cases next <;> simp [PoolSystem.monitorStopped, Closer.effort]

namespace PoolSystem

variable {s s' : PoolSystem β}

/-- How far the pool is from the return, in steps that the threads take by themselves. -/
def effort (s : PoolSystem β) : ℕ :=
  ∑ slot, (s.worker slot).effort + 4 * s.tp.queueDepth.toNat + (s.joiner .monitor).effort +
    (!s.monitorExited).toNat + s.closer.effort

/-- The steps that the threads take by themselves. Behind `drainWaiting` the thread that shuts the
pool down goes on only when it is woken. -/
def Own (s : PoolSystem β) : Action β → Prop
  | .look _ | .start _ | .return _ | .finish _ | .sample _ | .join _ | .clear _ => True
  | .close => s.closer ≠ .drainWaiting
  | _ => False

/-- The return comes nearer, and is the same one; no job is accepted. -/
structure Nearer (s s' : PoolSystem β) : Prop where
  effort : s'.effort < s.effort
  outcome : s'.closer.outcome = s.closer.outcome
  accepted : s'.accepted = s.accepted

/-- A worker moves on to where it has less to do. -/
theorem nearer_setWorker {slot : Slot} {w : Worker β} {closer : Closer} {active depth : ℤ}
    {queue : LinkedQueue (Job β)} {dequeued started completed : List ℕ}
    (hw : w.effort + 4 * depth.toNat < (s.worker slot).effort + 4 * s.tp.queueDepth.toNat)
    (hcloser : s.closer.WokenTo closer) :
    Nearer s { s with
      tp := { s.tp with queue := queue, queueDepth := depth, activeWorkers := active }
      worker := Function.update s.worker slot w
      closer := closer
      dequeued := dequeued
      started := started
      completed := completed } where
  effort := by
    have hsum := sum_update (Worker.effort (β := β)) s.worker slot w
    have hle := hcloser.effort_le
    simp only [PoolSystem.effort]
    omega
  outcome := hcloser.outcome
  accepted := rfl

/-- A worker that has a job goes on with it. -/
theorem exists_nearer_of_busy {slot : Slot} (hbusy : (s.worker slot).isBusy = true) :
    ∃ a s', s.Own a ∧ s.act a = some s' ∧ Nearer s s' := by
  cases hw : s.worker slot with
  | absent | ready | waiting | exited => simp [hw, Worker.isBusy] at hbusy
  | taken job =>
    have hstart : s.workerStart slot = some { s.setWorker slot (.running job) with
        started := s.started ++ [job.ticket] } := by
      simp only [workerStart, hw]
    refine ⟨.start slot, _, trivial, hstart, ?_⟩
    apply nearer_setWorker _ (Or.inl rfl)
    simp [hw, Worker.effort]
  | running job =>
    have hreturn : s.workerReturn slot = some { s.setWorker slot .finished with
        completed := s.completed ++ [job.ticket] } := by
      simp only [workerReturn, hw]
    refine ⟨.return slot, _, trivial, hreturn, ?_⟩
    apply nearer_setWorker _ (Or.inl rfl)
    simp [hw, Worker.effort]
  | finished =>
    have hfinish : s.workerFinish slot = some (s.workerDone slot) := by
      simp only [workerFinish, hw]
    refine ⟨.finish slot, _, trivial, hfinish, ?_⟩
    rw [workerDone_eq]
    apply nearer_setWorker _ (Closer.wokenTo_ite _ _)
    simp [hw, Worker.effort]

/-- A worker that has to leave goes on to its end. -/
theorem exists_nearer_of_leaving {slot : Slot} (hleaves : s.tp.shutdown = true ∨
    s.tp.workerRetiring slot = true) (habsent : s.worker slot ≠ .absent)
    (hwaiting : s.worker slot ≠ .waiting) (hexited : s.worker slot ≠ .exited) :
    ∃ a s', s.Own a ∧ s.act a = some s' ∧ Nearer s s' := by
  by_cases hbusy : (s.worker slot).isBusy = true
  · exact exists_nearer_of_busy hbusy
  have hready : s.worker slot = .ready := by
    cases hw : s.worker slot <;> simp_all [Worker.isBusy]
  have hlook : s.workerLook slot = some (s.setWorker slot .exited) := by
    rcases hleaves with hshut | hretiring
    · simp [workerLook, hready, hshut]
    · simp [workerLook, hready, hretiring]
  refine ⟨.look slot, _, trivial, hlook, ?_⟩
  apply nearer_setWorker _ (Or.inl rfl)
  simp [hready, Worker.effort]

/-- A job in the queue is taken by the worker that is awake. -/
theorem exists_nearer_of_queue (hinv : PoolInv s) (hshut : s.tp.shutdown = false)
    (hdepth : 0 < s.tp.queueDepth) : ∃ a s', s.Own a ∧ s.act a = some s' ∧ Nearer s s' := by
  obtain ⟨jobs, hholds, hlen, -⟩ := hinv.jobs.queue
  have hhead : s.tp.queue.head ≠ none := by
    intro hnone
    have hnil := hholds.eq_nil_iff.mpr hnone
    simp [hnil] at hlen
    omega
  obtain ⟨slot, -, hretiring, hawake⟩ := hinv.awake hshut hhead
  by_cases hbusy : (s.worker slot).isBusy = true
  · exact exists_nearer_of_busy hbusy
  have hready : s.worker slot = .ready := by
    cases hw : s.worker slot <;> simp_all [Worker.isBusy, Worker.isAwake]
  obtain ⟨job, rest, rfl⟩ : ∃ job rest, jobs = job :: rest :=
    List.exists_cons_of_ne_nil fun hnil => hhead (hholds.eq_nil_iff.mp hnil)
  obtain ⟨queue, hqueue, -⟩ := hholds.dequeue
  refine ⟨.look slot, s.workerTake slot job queue, trivial, ?_, ?_⟩
  · simp [act, workerLook, hready, hhead, hshut, hretiring, hqueue]
  · rw [workerTake_eq]
    apply nearer_setWorker _ (Closer.wokenTo_ite _ _)
    simp only [hready, Worker.effort]
    omega

/-- The monitor goes on to its end once it should exit. -/
theorem exists_nearer_of_monitor (hinv : PoolInv s) (hshut : s.tp.shutdown = false)
    (hexit : s.tp.monitorShouldExit = true) (hrunning : s.monitorExited = false) :
    ∃ a s', s.Own a ∧ s.act a = some s' ∧ Nearer s s' := by
  cases hj : s.joiner .monitor with
  | mk slots joined =>
    cases slots with
    | nil =>
      have hsample : s.monitorSample (fun _ => true) = { s with monitorExited := true } := by
        simp [monitorSample, hexit]
      refine ⟨.sample fun _ => true, { s with monitorExited := true }, trivial, ?_, ?_, rfl, rfl⟩
      · simp [act, isFree, hj, hrunning, hsample]
      · simp only [PoolSystem.effort, hrunning, Bool.not_true, Bool.not_false, Bool.toNat_true,
          Bool.toNat_false]
        omega
    | cons slot slots =>
      have hretiring : s.tp.workerRetiring slot = true := by
        apply hinv.joins.pending .monitor slot
        rw [hj]
        exact List.mem_cons_self
      cases joined with
      | true =>
        have hexited : s.worker slot = .exited := by
          refine hinv.joins.joined .monitor ?_ slot ?_ <;> rw [hj]
          rfl
        have hclear : s.clearRetired .monitor = some { s with
            tp := { s.tp with
              workerAlive := Function.update s.tp.workerAlive slot false
              workerRetiring := Function.update s.tp.workerRetiring slot false }
            worker := Function.update s.worker slot .absent
            joiner := Function.update s.joiner .monitor ⟨slots, false⟩ } := by
          simp only [clearRetired, hj]
        refine ⟨.clear .monitor, _, trivial, hclear, ?_, rfl, rfl⟩
        have hsum := sum_update (Worker.effort (β := β)) s.worker slot .absent
        rw [hexited] at hsum
        change _ + 0 = _ + 0 at hsum
        simp only [PoolSystem.effort, hj, Joining.effort, Function.update_self, List.length_cons,
          Bool.not_true, Bool.not_false, Bool.toNat_true, Bool.toNat_false]
        omega
      | false =>
        have hlive := hinv.live hshut
        by_cases hexited : s.worker slot = .exited
        · have hjoin : s.joinReturns .monitor = some { s with
              joiner := Function.update s.joiner .monitor ⟨slot :: slots, true⟩ } := by
            simp only [joinReturns, hj, hexited]
          refine ⟨.join .monitor, _, trivial, hjoin, ?_, rfl, rfl⟩
          simp only [PoolSystem.effort, hj, Joining.effort, Function.update_self, Bool.not_true,
            Bool.not_false, Bool.toNat_true, Bool.toNat_false]
          omega
        · apply exists_nearer_of_leaving (Or.inr hretiring) _ _ hexited
          · intro habsent
            have halive := hlive.aliveOfRetiring slot hretiring
            exact absurd ((hlive.absent slot).mp habsent) (by simp [halive])
          · intro hwaiting
            exact absurd (hlive.waiting slot hwaiting) (by simp [hretiring])

/-- The thread that shuts the pool down goes on. -/
theorem nearer_closer {closer : Closer} {submitClosed started exit shutdown : Bool}
    {alive : Slot → Bool} (heffort : closer.effort < s.closer.effort)
    (houtcome : closer.outcome = s.closer.outcome) :
    Nearer s { s with
      tp := { s.tp with
        workerAlive := alive
        shutdown := shutdown
        submitClosed := submitClosed
        monitorStarted := started
        monitorShouldExit := exit }
      closer := closer } where
  effort := by
    simp only [PoolSystem.effort]
    omega
  outcome := houtcome
  accepted := rfl

/-- Setting `shutdown` brings the return nearer. -/
theorem nearer_shutDown {call : Shutdown} (hc : s.closer = .closing call) :
    Nearer s (broadcastNonempty { s with
      tp := { s.tp with shutdown := true }
      closer := .joining call (List.finRange tpAbsMax) }) where
  effort := by
    have hsum : ∑ slot, ((s.worker slot).wake).effort ≤ ∑ slot, (s.worker slot).effort :=
      Finset.sum_le_sum fun slot _ => (s.worker slot).effort_wake_le
    have hlen : (List.finRange tpAbsMax).length = 64 := List.length_finRange
    simp only [PoolSystem.effort, broadcastNonempty, hc, Closer.effort, hlen]
    omega
  outcome := by rw [hc]; rfl
  accepted := rfl

/-- **Between the call and the return some thread can take a step, and it brings the return
nearer.** -/
theorem exists_nearer (hinv : PoolInv s) (hclose : CloseOk s) {call : Shutdown}
    (hcall : s.closer.outcome = some call) (hreturn : s.closer ≠ .returned call) :
    ∃ a s', s.Own a ∧ s.act a = some s' ∧ Nearer s s' := by
  have hbefore : s.closer.beforeShutdown = true → s.tp.shutdown = false := hclose.before
  cases hc : s.closer with
  | idle => simp [hc, Closer.outcome] at hcall
  | stopMonitor next =>
    by_cases hstarted : s.tp.monitorStarted = true
    · have hstep : s.closerStep = some { s with
          tp := { s.tp with monitorShouldExit := true }, closer := .joinMonitor next } := by
        simp [closerStep, hc, hstarted]
      refine ⟨.close, _, by simp [Own, hc], hstep, ?_⟩
      apply nearer_closer
      · cases next <;> simp [hc, Closer.effort]
      · cases next <;> simp [hc, Closer.outcome]
    · have hstep : s.closerStep = some { s with closer := monitorStopped next } := by
        simp [closerStep, hc, hstarted]
      refine ⟨.close, _, by simp [Own, hc], hstep, ?_⟩
      apply nearer_closer
      · cases next <;> simp [hc, Closer.effort, monitorStopped]
      · cases next <;> simp [hc, Closer.outcome, monitorStopped]
  | joinMonitor next =>
    by_cases hexited : s.monitorExited = true
    · have hstep : s.closerStep = some { s with
          tp := { s.tp with monitorStarted := false }, closer := monitorStopped next } := by
        simp [closerStep, hc, hexited]
      refine ⟨.close, _, by simp [Own, hc], hstep, ?_⟩
      apply nearer_closer
      · rw [hc]
        exact effort_monitorStopped_lt next
      · rw [hc, outcome_monitorStopped]
        cases next <;> rfl
    · exact exists_nearer_of_monitor hinv (hbefore (by rw [hc]; rfl)) (hclose.exits next hc)
        (Bool.eq_false_of_not_eq_true hexited)
  | drain =>
    have hshut := hbefore (by rw [hc]; rfl)
    by_cases hactive : 0 < s.tp.activeWorkers
    · rw [hinv.jobs.active] at hactive
      obtain ⟨slot, hslot⟩ := Finset.card_pos.mp (Int.natCast_pos.mp hactive)
      exact exists_nearer_of_busy (mem_busySlots.mp hslot)
    by_cases hdepth : 0 < s.tp.queueDepth
    · exact exists_nearer_of_queue hinv hshut hdepth
    have hstep : s.closerStep = some { s with closer := .stopMonitor (some (.graceful false)) } := by
      simp [closerStep, hc, hactive, hdepth]
    refine ⟨.close, _, by simp [Own, hc], hstep, ?_⟩
    apply nearer_closer
    · simp [hc, Closer.effort]
    · simp [hc, Closer.outcome]
  | drainWaiting =>
    have hshut := hbefore (by rw [hc]; rfl)
    by_cases hactive : 0 < s.tp.activeWorkers
    · rw [hinv.jobs.active] at hactive
      obtain ⟨slot, hslot⟩ := Finset.card_pos.mp (Int.natCast_pos.mp hactive)
      exact exists_nearer_of_busy (mem_busySlots.mp hslot)
    · exact exists_nearer_of_queue hinv hshut ((hclose.waits hc).resolve_right hactive)
  | closing call' =>
    have hstep : s.closerStep = some (broadcastNonempty { s with
        tp := { s.tp with shutdown := true }
        closer := .joining call' (List.finRange tpAbsMax) }) := by
      simp only [closerStep, hc]
    exact ⟨.close, _, by simp [Own, hc], hstep, nearer_shutDown hc⟩
  | joining call' slots =>
    have hshut := hinv.shut call' slots hc
    cases slots with
    | nil =>
      have hstep : s.closerStep = some { s with closer := .returned call' } := by
        simp only [closerStep, hc]
      refine ⟨.close, _, by simp [Own, hc], hstep, ?_⟩
      apply nearer_closer
      · simp [hc, Closer.effort]
      · simp [hc, Closer.outcome]
    | cons slot slots =>
      by_cases halive : s.tp.workerAlive slot = true
      · by_cases hexited : s.worker slot = .exited
        · have hstep : s.closerStep = some { s with
              tp := { s.tp with workerAlive := Function.update s.tp.workerAlive slot false }
              closer := .joining call' slots } := by
            simp [closerStep, hc, halive, hexited]
          refine ⟨.close, _, by simp [Own, hc], hstep, ?_⟩
          apply nearer_closer
          · simp [hc, Closer.effort]
          · simp [hc, Closer.outcome]
        · exact exists_nearer_of_leaving (Or.inl hshut) (hclose.alive hshut slot halive)
            (hclose.leaves hshut slot) hexited
      · have hstep : s.closerStep = some { s with closer := .joining call' slots } := by
          simp [closerStep, hc, halive]
        refine ⟨.close, _, by simp [Own, hc], hstep, ?_⟩
        apply nearer_closer
        · simp [hc, Closer.effort]
        · simp [hc, Closer.outcome]
  | returned call' =>
    rw [hc] at hcall hreturn
    exact absurd (congrArg Closer.returned (Option.some.inj hcall)) hreturn

end PoolSystem

/-- The pool is on its way to the return of a call, with so many jobs accepted. -/
structure Underway (call : Shutdown) (accepted : ℕ) (s : PoolSystem β) : Prop where
  pool : PoolInv s
  close : CloseOk s
  outcome : s.closer.outcome = some call
  accepted : s.accepted = accepted

theorem Underway.exists_step {call : Shutdown} {accepted : ℕ} (s : PoolSystem β)
    (h : Underway call accepted s) (hshort : ¬ s.closer = .returned call) :
    ∃ a s', s.Own a ∧ s.step a = some s' ∧ Underway call accepted s' ∧ s'.effort < s.effort := by
  obtain ⟨a, s', hown, hact, hnear⟩ := PoolSystem.exists_nearer h.pool h.close h.outcome hshort
  have hfreed : ¬ s.isFreed = true := by
    intro hfreed
    have hcall := h.outcome
    cases hc : s.closer <;> simp_all [PoolSystem.isFreed, Closer.outcome]
  have hstep : s.step a = some s' := by rw [PoolSystem.step, if_neg hfreed, hact]
  exact ⟨a, s', hown, hstep, ⟨h.pool.step hstep, h.close.step h.pool hstep,
    hnear.outcome.trans h.outcome, hnear.accepted.trans h.accepted⟩, hnear.effort⟩

section Results

variable {creates : Slot → Bool} {monitorCreated : Bool} {n : ℤ} {s₀ s : PoolSystem β}
  {actions : List (PoolSystem.Action β)}

/-- **Once a shutdown is called, the threads come by themselves to where it returns, wherever they
are. A graceful one that has not run out of time returns 0, and then each job that was accepted has
run to its end once.** -/
theorem threadpool_run_returns (hcreate : threadpoolCreate creates monitorCreated n = some s₀)
    (hrun : Runs.run PoolSystem.step s₀ actions = some s) {call : Shutdown}
    (hcall : s.closer.outcome = some call) :
    ∃ more s', Runs.Meets PoolSystem.step PoolSystem.Own s more ∧ more.length ≤ s.effort ∧
      Runs.run PoolSystem.step s more = some s' ∧ s'.closer = .returned call ∧
      (call = .graceful false → s'.completed.Perm (List.range s.accepted)) := by
  have hinv := (PoolInv.create hcreate).run hrun
  have hclose := (CloseOk.create hcreate).run (PoolInv.create hcreate) hrun
  have hunderway : Underway call s.accepted s := ⟨hinv, hclose, hcall, rfl⟩
  obtain ⟨more, s', hown, hlength, hrun', hunderway', hreturned⟩ :=
    Runs.exists_run_to PoolSystem.effort Underway.exists_step hunderway
  refine ⟨more, s', hown, hlength, hrun', hreturned, fun hgraceful => ?_⟩
  obtain ⟨hhead, hactive⟩ := hunderway'.pool.drained (by rw [hreturned, hgraceful]; rfl)
  exact hunderway'.accepted ▸ hunderway'.pool.jobs.completed_perm hhead hactive

/-- A job in the queue, another one on a worker, a worker that retires, and a graceful shutdown
that waits for the monitor. -/
def closeRun : List (PoolSystem.Action Unit) :=
  [.submit () 0 none, .submit () 1 none, .look 0, .start 0, .resize 0 (fun _ => true) 4,
    .resize 0 (fun _ => true) 2, .shutdownGraceful, .close]

theorem threadpool_run_returns_two : ∃ s₀ s s' : PoolSystem Unit, ∃ more,
    threadpoolCreate (fun _ => true) true 2 = some s₀ ∧
      Runs.run PoolSystem.step s₀ closeRun = some s ∧
      Runs.run PoolSystem.step s more = some s' ∧ s'.closer = .returned (.graceful false) ∧
      s'.completed.Perm (List.range 2) := by
  have hall : ((threadpoolCreate (fun _ => true) true 2).bind fun s₀ =>
      (Runs.run PoolSystem.step s₀ closeRun).map fun s => (s.closer.outcome, s.accepted))
      = some (some (.graceful false), 2) := by decide +kernel
  obtain ⟨s₀, hcreate, hmap⟩ := Option.bind_eq_some_iff.mp hall
  obtain ⟨s, hrun, hs⟩ := Option.map_eq_some_iff.mp hmap
  obtain ⟨hcall, haccepted⟩ := Prod.mk.inj hs
  obtain ⟨more, s', -, -, hrun', hreturned, hdone⟩ := threadpool_run_returns hcreate hrun hcall
  exact ⟨s₀, s, s', more, hcreate, hrun, hrun', hreturned, haccepted ▸ hdone rfl⟩

end Results

end MiniSql

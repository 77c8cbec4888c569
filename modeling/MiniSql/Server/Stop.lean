import MiniSql.Server

/-!
# The server comes to its end

Once `server_shutdown` is called and the thread of `server_run` is not in `accept`, the threads come
by themselves to where it returns: nobody has to connect, no wait has to run out of time. On the way
each accepted connection is answered and closed.

A signal that comes between the test of the flag and `accept` does not interrupt the call. The
server then goes on when the next connection or another signal comes. `handle_client` waits in
`read` and `write` without a limit of time, so a worker comes back from it only if the client of its
connection sends a request, or closes, and takes the response.

## Main definitions

* `ReachOk` — what holds after every step.
* `ServerSystem.Own` — the steps that the threads take by themselves.
* `ServerSystem.effort` — how many such steps are left.

## Main results

* `ServerSystem.exists_nearer` — before the return some thread can take a step, and it brings the
  return nearer.
* `server_run_returns` — every run in which `server_shutdown` was called can be carried on to the
  return, if no client keeps a call of `handle_client` waiting.
-/

namespace MiniSql

open Handles (Phase)

/-! ## The thread that shuts the pool down -/

section Closer

variable {s s' : PoolSystem ℕ} {a : PoolSystem.Action ℕ}

theorem outcome_of_closerStep (hstep : s.closerStep = some s') :
    s'.closer.outcome = s.closer.outcome := by
  unfold PoolSystem.closerStep at hstep
  cases hc : s.closer with
  | idle | returned call => simp [hc] at hstep
  | stopMonitor next =>
    simp only [hc] at hstep
    split at hstep <;> rw [← Option.some.inj hstep] <;> cases next <;> rfl
  | joinMonitor next =>
    simp only [hc] at hstep
    split at hstep
    · rw [← Option.some.inj hstep]
      cases next <;> rfl
    · exact absurd hstep (by simp)
  | drain =>
    simp only [hc] at hstep
    split at hstep <;> rw [← Option.some.inj hstep] <;> rfl
  | drainWaiting | closing call =>
    simp only [hc] at hstep
    rw [← Option.some.inj hstep]
    rfl
  | joining call slots =>
    cases slots with
    | nil =>
      simp only [hc] at hstep
      rw [← Option.some.inj hstep]
      rfl
    | cons slot slots =>
      simp only [hc] at hstep
      split at hstep
      · split at hstep
        · rw [← Option.some.inj hstep]
          rfl
        · exact absurd hstep (by simp)
      · rw [← Option.some.inj hstep]
        rfl

/-- A graceful shutdown stays one. -/
theorem CloserMove.gracefully (h : CloserMove s s' a) (hhard : a ≠ .shutdown)
    (hout : ∃ timedOut, s.closer.outcome = some (.graceful timedOut)) :
    ∃ timedOut, s'.closer.outcome = some (.graceful timedOut) := by
  cases h with
  | beside hbeside => rwa [hbeside.closer.outcome]
  | shutdown => exact absurd rfl hhard
  | shutdownGraceful hidle heq =>
    subst heq
    exact ⟨false, rfl⟩
  | close hclose => rwa [outcome_of_closerStep hclose]
  | timeout hc heq =>
    subst heq
    exact ⟨true, rfl⟩

/-- Without a call there is no such thread. -/
theorem CloserMove.idle (h : CloserMove s s' a) (hhard : a ≠ .shutdown)
    (hgraceful : a ≠ .shutdownGraceful) (hidle : s.closer = .idle) : s'.closer = .idle := by
  cases h with
  | beside hbeside =>
    rcases hbeside.closer with heq | heq <;> rw [heq, hidle]
    rfl
  | shutdown => exact absurd rfl hhard
  | shutdownGraceful => exact absurd rfl hgraceful
  | close hclose => simp [PoolSystem.closerStep, hidle] at hclose
  | timeout hc => simp [hidle] at hc

/-- The memory has room for another job. -/
theorem bounded_of_step (hinv : PoolInv s) (hstep : s.step a = some s') (h : s.tp.queue.Bounded) :
    s'.tp.queue.Bounded := by
  cases jobStep_of_step hinv hstep with
  | quiet hquiet => rwa [hquiet.queue]
  | accept haccepts =>
    rw [haccepts.queue]
    exact h.enqueue _ _
  | take hready hqueue heq =>
    rw [heq, PoolSystem.workerTake_eq]
    exact h.dequeue hqueue
  | start hw heq => rwa [heq]
  | back hw heq => rwa [heq]
  | finish hw heq => rwa [heq, PoolSystem.workerDone_eq]

end Closer

/-! ## What holds after every step -/

/-- The thread of `server_run` has called `threadpool_shutdown_graceful`. -/
def Stage.stopped : Stage → Bool
  | .draining | .returned => true
  | _ => false

/-- What holds after every step. -/
structure ReachOk (s : ServerSystem) : Prop where
  ok : ServerOk s
  close : CloseOk s.pool
  bounded : s.pool.tp.queue.Bounded
  running : s.stage.stopped = false → s.pool.closer = .idle
  stopped : s.stage.stopped = true → ∃ timedOut, s.pool.closer.outcome = some (.graceful timedOut)
  freed : s.stage = .returned → s.pool.isFreed = true

/-- What a step does to the pool, and whether the thread goes on to the shutdown. -/
inductive PoolMove (s s' : ServerSystem) : Prop
  | same (hpool : s'.pool = s.pool) (hstage : s'.stage.stopped = s.stage.stopped)
      (hreturned : s'.stage = .returned → s.stage = .returned ∨ s.pool.isFreed = true)
  | step {a : PoolSystem.Action ℕ} (hstep : s.pool.step a = some s'.pool) (hhard : a ≠ .shutdown)
      (hgraceful : a ≠ .shutdownGraceful) (hstage : s'.stage.stopped = s.stage.stopped)
      (hreturned : s'.stage = .returned → s.stage = .returned)
  | stop (hstep : s.pool.step .shutdownGraceful = some s'.pool) (hstage : s'.stage = .draining)

theorem poolMove_of_step {s s' : ServerSystem} {a : ServerAction} (hstep : s.step a = some s') :
    PoolMove s s' := by
  cases a with
  | serverShutdown =>
    obtain rfl := Option.some.inj hstep
    exact .same rfl rfl Or.inl
  | test =>
    unfold ServerSystem.step at hstep
    cases hstage : s.stage <;> simp only [hstage, reduceCtorEq] at hstep
    obtain rfl := Option.some.inj hstep
    refine .same rfl ?_ ?_
    · rw [hstage]
      dsimp only
      split <;> rfl
    · intro hreturned
      dsimp only at hreturned
      split at hreturned <;> simp at hreturned
  | accept result =>
    unfold ServerSystem.step at hstep
    cases hstage : s.stage <;> simp only [hstage, reduceCtorEq] at hstep
    cases result with
    | client fd =>
      obtain ⟨-, heq⟩ := Option.ite_none_left_eq_some.mp hstep
      obtain rfl := Option.some.inj heq
      exact .same rfl (by rw [hstage]; rfl) (by simp)
    | interrupted =>
      obtain rfl := Option.some.inj hstep
      exact .same rfl (by rw [hstage]; rfl) (by simp)
    | failed =>
      obtain rfl := Option.some.inj hstep
      refine .same rfl ?_ ?_
      · rw [hstage]
        dsimp only
        split <;> rfl
      · intro hreturned
        dsimp only at hreturned
        split at hreturned <;> simp at hreturned
  | submit addr woken =>
    unfold ServerSystem.step at hstep
    cases hstage : s.stage <;> simp only [hstage, reduceCtorEq] at hstep
    rename_i fd
    unfold ServerSystem.submitJob at hstep
    obtain ⟨hfreed, hstep⟩ := Option.ite_none_left_eq_some.mp hstep
    obtain ⟨⟨accepted, pool⟩, hsubmit, rfl⟩ := Option.map_eq_some_iff.mp hstep
    have hpool : s.pool.step (.submit fd addr woken) = some pool := by
      refine PoolSystem.step_eq_some.mpr ⟨hfreed, ?_⟩
      exact Option.map_eq_some_iff.mpr ⟨_, hsubmit, rfl⟩
    cases accepted with
    | false => exact .step hpool (by simp) (by simp) (by rw [hstage]; rfl) (by simp)
    | true => exact .step hpool (by simp) (by simp) (by rw [hstage]; rfl) (by simp)
  | refuse =>
    unfold ServerSystem.step at hstep
    cases hstage : s.stage <;> simp only [hstage, reduceCtorEq] at hstep
    obtain rfl := Option.some.inj hstep
    exact .same rfl (by rw [hstage]; rfl) (by simp)
  | closeRefused =>
    unfold ServerSystem.step at hstep
    cases hstage : s.stage <;> simp only [hstage, reduceCtorEq] at hstep
    obtain rfl := Option.some.inj hstep
    exact .same rfl (by rw [hstage]; rfl) (by simp)
  | stop =>
    unfold ServerSystem.step at hstep
    cases hstage : s.stage <;> simp only [hstage, reduceCtorEq] at hstep
    obtain ⟨pool, hpool, rfl⟩ := Option.map_eq_some_iff.mp hstep
    exact .stop hpool rfl
  | drained =>
    unfold ServerSystem.step at hstep
    cases hstage : s.stage <;> simp only [hstage, reduceCtorEq] at hstep
    obtain ⟨hfreed, heq⟩ := Option.ite_none_right_eq_some.mp hstep
    obtain rfl := Option.some.inj heq
    exact .same rfl (by rw [hstage]; rfl) fun _ => Or.inr hfreed
  | reply slot =>
    replace hstep : s.replyJob slot = some s' := hstep
    unfold ServerSystem.replyJob at hstep
    split at hstep
    · obtain rfl := Option.some.inj hstep
      exact .same rfl rfl Or.inl
    · exact absurd hstep (by simp)
  | close slot =>
    replace hstep : s.closeJob slot = some s' := hstep
    unfold ServerSystem.closeJob at hstep
    split at hstep
    · obtain rfl := Option.some.inj hstep
      exact .same rfl rfl Or.inl
    · exact absurd hstep (by simp)
  | pool a =>
    rcases ServerSystem.poolStep_cases hstep with
      ⟨slot, pool, rfl, -, hpool, rfl⟩ | ⟨-, -, ⟨hhard, hgraceful⟩, pool, hpool, rfl⟩
    · exact .step hpool (by simp) (by simp) rfl id
    · exact .step hpool hhard hgraceful rfl id

namespace ReachOk

variable {s s' : ServerSystem}

theorem step (h : ReachOk s) {a : ServerAction} (hstep : s.step a = some s') : ReachOk s' := by
  have hok := h.ok.step hstep
  cases poolMove_of_step hstep with
  | same hpool hstage hreturned =>
    refine ⟨hok, hpool ▸ h.close, hpool ▸ h.bounded, ?_, ?_, ?_⟩
    · rw [hpool, hstage]
      exact h.running
    · rw [hpool, hstage]
      exact h.stopped
    · rw [hpool]
      exact fun hs' => (hreturned hs').elim h.freed id
  | step hpool hhard hgraceful hstage hreturned =>
    have hmove := closerMove_of_step h.ok.pool hpool
    refine ⟨hok, h.close.step h.ok.pool hpool, bounded_of_step h.ok.pool hpool h.bounded, ?_, ?_, ?_⟩
    · rw [hstage]
      exact fun hrunning => hmove.idle hhard hgraceful (h.running hrunning)
    · rw [hstage]
      exact fun hstopped => hmove.gracefully hhard (h.stopped hstopped)
    · intro hs'
      exact absurd (h.freed (hreturned hs')) (PoolSystem.step_eq_some.mp hpool).1
  | stop hpool hstage =>
    refine ⟨hok, h.close.step h.ok.pool hpool, bounded_of_step h.ok.pool hpool h.bounded, ?_, ?_, ?_⟩
    · rw [hstage]
      exact fun hrunning => absurd hrunning (by simp [Stage.stopped])
    · intro _
      obtain ⟨-, heq⟩ := Option.ite_none_right_eq_some.mp (PoolSystem.step_eq_some.mp hpool).2
      rw [← Option.some.inj heq]
      exact ⟨false, rfl⟩
    · rw [hstage]
      exact fun hs' => absurd hs' (by simp)

theorem start {pool : PoolSystem ℕ} {creates : Slot → Bool} {monitorCreated : Bool} {n : ℤ}
    (hcreate : threadpoolCreate creates monitorCreated n = some pool) : ReachOk (serverRun pool) where
  ok := ServerOk.start hcreate
  close := CloseOk.create hcreate
  bounded := by
    show pool.tp.queue.Bounded
    rw [(Quiet.create hcreate).queue]
    exact LinkedQueue.bounded_empty
  running := fun _ => (CloseOk.closer_create hcreate).1
  stopped := fun hstopped => absurd hstopped (by simp [serverRun, Stage.stopped])
  freed := fun hreturned => absurd hreturned (by simp [serverRun])

/-- The shutdown has returned 0 if the wait has not run out of time. -/
theorem closed_of_returned (h : ReachOk s) (hreturned : s.stage = .returned)
    (hintime : s.pool.closer.outcome ≠ some (.graceful true)) :
    s.pool.closer = .returned (.graceful false) := by
  obtain ⟨timedOut, hout⟩ := h.stopped (by rw [hreturned]; rfl)
  have hfreed := h.freed hreturned
  cases hc : s.pool.closer <;> simp [PoolSystem.isFreed, hc] at hfreed
  rw [hc] at hout hintime
  obtain rfl := Option.some.inj hout
  cases timedOut with
  | false => rfl
  | true => exact absurd rfl hintime

theorem run (h : ReachOk s) {actions : List ServerAction}
    (hrun : Runs.run ServerSystem.step s actions = some s') : ReachOk s' :=
  Runs.preserves (fun _ _ _ hok hstep => hok.step hstep) h hrun

end ReachOk

/-! ## The steps that are left -/

/-- The steps of `handle_client` before it returns. -/
def callEffort : Phase → ℕ
  | .waiting => 2
  | .answered => 1
  | .closed => 0

/-- The steps of the thread of `server_run`, with those that it gives to the pool. -/
def Stage.effort : Stage → ℕ
  | .returned => 0
  | .draining => 1
  | .leaving => 218
  | .looping => 219
  | .refused _ => 220
  | .busy _ => 221
  | .accepted _ => 234
  | .accepting => 0

namespace ServerSystem

/-- How far the server is from the return, in steps that the threads take by themselves. -/
def effort (s : ServerSystem) : ℕ :=
  3 * s.pool.effort + ∑ slot, callEffort (s.call slot) + s.stage.effort

/-- The steps that the threads take by themselves. `handle_client` first waits in `read` for a
request or the end of the connection, so it answers only a client that lets it go on: one of the
connections in `responsive`. -/
def Own (responsive : ℕ → Prop) (s : ServerSystem) : ServerAction → Prop
  | .accept _ | .serverShutdown => False
  | .reply slot => ∃ job conn, s.pool.worker slot = .running job ∧
      s.sent[job.ticket]? = some conn ∧ responsive conn
  | .pool a => s.pool.Own a
  | _ => True

/-- The return comes nearer; no connection is accepted, and no wait runs out of time. -/
structure Nearer (s s' : ServerSystem) : Prop where
  effort : s'.effort < s.effort
  flag : s'.shutdownFlag = s.shutdownFlag
  stage : s'.stage ≠ .accepting
  arrived : s'.net.arrived = s.net.arrived
  outcome : s'.pool.closer.outcome = some (.graceful true) →
    s.pool.closer.outcome = some (.graceful true)

variable {s : ServerSystem} {responsive : ℕ → Prop}

/-- The thread of `server_run` goes on. -/
theorem nearer_stage {stage : Stage} {net : Handles ServerReply}
    (harrived : net.arrived = s.net.arrived) (hstage : stage ≠ .accepting)
    (heffort : stage.effort < s.stage.effort) :
    Nearer s { s with net := net, stage := stage } where
  effort := by
    simp only [ServerSystem.effort]
    omega
  flag := rfl
  stage := hstage
  arrived := harrived
  outcome := id

/-- If a worker waits, one is woken. -/
theorem exists_signal (pool : PoolSystem ℕ) :
    ∃ woken pool', pool.signalNonempty woken = some pool' := by
  by_cases hany : (List.finRange tpAbsMax).any pool.isWaiting = true
  · obtain ⟨slot, -, hwaiting⟩ := List.any_eq_true.mp hany
    exact ⟨some slot, _, if_pos hwaiting⟩
  · exact ⟨none, _, if_neg hany⟩

/-- A submit is always possible: the memory has room. -/
theorem exists_submit {pool : PoolSystem ℕ} (hbounded : pool.tp.queue.Bounded) (fd : ℕ) :
    ∃ addr woken r, pool.threadpoolSubmit fd addr woken = some r := by
  obtain ⟨addr, hroom⟩ := hbounded
  have hfree : ¬ (pool.tp.queue.cells addr).isSome = true := by simp [hroom addr le_rfl]
  unfold PoolSystem.threadpoolSubmit
  by_cases hclosed : pool.tp.shutdown = true ∨ pool.tp.submitClosed = true
  · exact ⟨addr, none, _, if_pos hclosed⟩
  simp only [if_neg hclosed]
  by_cases hfull : 0 < pool.tp.queueMax ∧ pool.tp.queueMax ≤ pool.tp.queueDepth
  · exact ⟨addr, none, _, if_pos hfull⟩
  simp only [if_neg hfull]
  obtain ⟨woken, pool', hsignal⟩ := exists_signal { pool with
    tp := { pool.tp with
      queue := pool.tp.queue.enqueue addr ⟨pool.accepted, fd⟩
      queueDepth := pool.tp.queueDepth + 1 }
    accepted := pool.accepted + 1 }
  exact ⟨addr, woken, (true, pool'), by rw [if_neg hfree, hsignal]; rfl⟩

/-- A submit leaves at most one job more to do. -/
theorem effort_submit {pool pool' : PoolSystem ℕ} {fd addr : ℕ} {woken : Option Slot} {accepted : Bool}
    (hsubmit : pool.threadpoolSubmit fd addr woken = some (accepted, pool')) :
    pool'.effort ≤ pool.effort + 4 ∧ pool'.closer = pool.closer := by
  unfold PoolSystem.threadpoolSubmit at hsubmit
  split at hsubmit
  · obtain ⟨-, rfl⟩ := Prod.mk.inj (Option.some.inj hsubmit)
    exact ⟨Nat.le_add_right _ _, rfl⟩
  · split at hsubmit
    · obtain ⟨-, rfl⟩ := Prod.mk.inj (Option.some.inj hsubmit)
      exact ⟨Nat.le_add_right _ _, rfl⟩
    · split at hsubmit
      · exact absurd hsubmit (by simp)
      · obtain ⟨t, hsignal, ht⟩ := Option.map_eq_some_iff.mp hsubmit
        obtain ⟨-, rfl⟩ := Prod.mk.inj ht
        have hdepth : (pool.tp.queueDepth + 1).toNat ≤ pool.tp.queueDepth.toNat + 1 := by omega
        rcases PoolSystem.signalNonempty_cases hsignal with ⟨slot, hwaiting, rfl⟩ | ⟨-, rfl⟩
        · have hsum := sum_update (Worker.effort (β := ℕ)) pool.worker slot .ready
          have hbefore : (pool.worker slot).effort = 2 := by
            rw [show pool.worker slot = .waiting from hwaiting]
            rfl
          have hafter : (Worker.ready : Worker ℕ).effort = 1 := rfl
          refine ⟨?_, rfl⟩
          simp only [PoolSystem.effort, PoolSystem.setWorker]
          omega
        · refine ⟨?_, rfl⟩
          simp only [PoolSystem.effort]
          omega

/-- A step of the pool that brings its return nearer; a call of `handle_client` first answers and
closes. -/
theorem exists_nearer_of_pool {a : PoolSystem.Action ℕ} {pool : PoolSystem ℕ}
    (hok : ServerOk s) (hresponsive : ∀ conn < s.net.arrived, responsive conn)
    (hstage : s.stage ≠ .accepting) (hown : s.pool.Own a) (hstep : s.pool.step a = some pool)
    (hnearer : PoolSystem.Nearer s.pool pool) :
    ∃ a s', s.Own responsive a ∧ s.step a = some s' ∧ Nearer s s' := by
  have hother : (∀ slot, a ≠ .return slot) → s.step (.pool a) = some { s with pool := pool } := by
    intro hreturn
    cases a with
    | «return» slot => exact absurd rfl (hreturn slot)
    | submit | shutdown | shutdownGraceful => exact absurd hown id
    | _ => exact congrArg (Option.map _) hstep
  by_cases hreturn : ∃ slot, a = .return slot
  · obtain ⟨slot, rfl⟩ := hreturn
    obtain ⟨job, hw, -⟩ := PoolSystem.workerReturn_cases (PoolSystem.step_eq_some.mp hstep).2
    have hsum : ∀ p, ∑ i, callEffort (Function.update s.call slot p i) + callEffort (s.call slot)
        = ∑ i, callEffort (s.call i) + callEffort p := sum_update callEffort s.call slot
    cases hcall : s.call slot with
    | waiting =>
      have hless := hsum .answered
      rw [hcall] at hless
      have hreply : s.step (.reply slot) = some { s with
          net := s.net.reply job.body (.served job.ticket)
          call := Function.update s.call slot .answered } := by
        simp only [step, replyJob, hw, hcall]
      obtain ⟨conn, hconn, -⟩ := hok.held slot job (by rw [hw]; rfl)
      have hclient := hresponsive conn (hok.sent_lt conn (List.mem_of_getElem? hconn))
      refine ⟨.reply slot, _, ⟨job, conn, hw, hconn, hclient⟩, hreply, ?_, rfl, hstage, rfl, id⟩
      simp only [effort, callEffort] at hless ⊢
      omega
    | answered =>
      have hless := hsum .closed
      rw [hcall] at hless
      have hclose : s.step (.close slot) = some { s with
          net := s.net.close job.body
          call := Function.update s.call slot .closed } := by
        simp only [step, closeJob, hw, hcall]
      refine ⟨.close slot, _, trivial, hclose, ?_, rfl, hstage, rfl, id⟩
      simp only [effort, callEffort] at hless ⊢
      omega
    | closed =>
      have hmore := hsum .waiting
      rw [hcall] at hmore
      have hback : s.step (.pool (.return slot)) = some { s with
          pool := pool
          call := Function.update s.call slot .waiting } := by
        simp only [step, poolStep, hcall, hstep, Option.map_some]
      refine ⟨.pool (.return slot), _, hown, hback, ?_, rfl, hstage, rfl, ?_⟩
      · have hpool := hnearer.effort
        simp only [effort, callEffort] at hmore ⊢
        omega
      · intro hout
        exact hnearer.outcome ▸ hout
  · have hstep' := hother fun slot heq => hreturn ⟨slot, heq⟩
    refine ⟨.pool a, _, hown, hstep', ?_, rfl, hstage, rfl, ?_⟩
    · have hpool := hnearer.effort
      simp only [effort]
      omega
    · intro hout
      exact hnearer.outcome ▸ hout

/-- **Before the return some thread can take a step, and it brings the return nearer.** -/
theorem exists_nearer (h : ReachOk s) (hresponsive : ∀ conn < s.net.arrived, responsive conn)
    (hflag : s.shutdownFlag = true) (hstage : s.stage ≠ .accepting) (hreturned : s.stage ≠ .returned) :
    ∃ a s', s.Own responsive a ∧ s.step a = some s' ∧ Nearer s s' := by
  cases hs : s.stage with
  | accepting => exact absurd hs hstage
  | returned => exact absurd hs hreturned
  | looping =>
    have hstep : s.step .test = some { s with stage := .leaving } := by
      simp only [step, hs, hflag, if_true]
    refine ⟨.test, _, trivial, hstep, nearer_stage rfl (by simp) ?_⟩
    rw [hs]
    simp [Stage.effort]
  | accepted fd =>
    have hfreed : ¬ s.pool.isFreed = true := by
      have hidle := h.running (by rw [hs]; rfl)
      simp [PoolSystem.isFreed, hidle]
    obtain ⟨addr, woken, ⟨accepted, pool⟩, hsubmit⟩ := exists_submit h.bounded fd
    obtain ⟨heffort, hcloser⟩ := effort_submit hsubmit
    have hstep : s.step (.submit addr woken) = some (if accepted then
        { s with pool := pool, sent := s.sent ++ (s.net.table fd).toList, stage := .looping }
        else { s with pool := pool, stage := .busy fd }) := by
      simp only [step, hs, submitJob, if_neg hfreed, hsubmit, Option.map_some]
    refine ⟨.submit addr woken, _, trivial, hstep, ?_⟩
    cases accepted with
    | true =>
      refine ⟨?_, rfl, by simp, rfl, fun hout => hcloser ▸ hout⟩
      simp only [effort, hs, Stage.effort, if_true]
      omega
    | false =>
      refine ⟨?_, rfl, by simp, rfl, fun hout => hcloser ▸ hout⟩
      simp only [effort, hs, Stage.effort, Bool.false_eq_true, if_false]
      omega
  | busy fd =>
    have hstep : s.step .refuse = some { s with
        net := s.net.reply fd .queueFull
        stage := .refused fd } := by
      simp only [step, hs]
    refine ⟨.refuse, _, trivial, hstep, nearer_stage rfl (by simp) ?_⟩
    rw [hs]
    simp [Stage.effort]
  | refused fd =>
    have hstep : s.step .closeRefused = some { s with net := s.net.close fd, stage := .looping } := by
      simp only [step, hs]
    refine ⟨.closeRefused, _, trivial, hstep, nearer_stage rfl (by simp) ?_⟩
    rw [hs]
    simp [Stage.effort]
  | leaving =>
    have hidle := h.running (by rw [hs]; rfl)
    have hfreed : ¬ s.pool.isFreed = true := by simp [PoolSystem.isFreed, hidle]
    have hstep : s.step .stop = some { s with
        pool := { s.pool with
          tp := { s.pool.tp with submitClosed := true }
          closer := .stopMonitor none }
        stage := .draining } := by
      simp only [step, hs, PoolSystem.step, if_neg hfreed, PoolSystem.act, hidle, if_true,
        Option.map_some]
    refine ⟨.stop, _, trivial, hstep, ?_, rfl, by simp, rfl, ?_⟩
    · simp only [effort, PoolSystem.effort, hs, hidle, Stage.effort, Closer.effort]
      omega
    · simp [Closer.outcome]
  | draining =>
    obtain ⟨timedOut, hout⟩ := h.stopped (by rw [hs]; rfl)
    by_cases hfreed : s.pool.isFreed = true
    · have hstep : s.step .drained = some { s with stage := .returned } := by
        simp only [step, hs, if_pos hfreed]
      refine ⟨.drained, _, trivial, hstep, nearer_stage rfl (by simp) ?_⟩
      rw [hs]
      simp [Stage.effort]
    · have hshort : s.pool.closer ≠ .returned (.graceful timedOut) := by
        intro hc
        exact hfreed (by simp [PoolSystem.isFreed, hc])
      obtain ⟨a, pool, hown, hact, hnearer⟩ := PoolSystem.exists_nearer h.ok.pool h.close hout hshort
      exact exists_nearer_of_pool h.ok hresponsive hstage hown
        (PoolSystem.step_eq_some.mpr ⟨hfreed, hact⟩) hnearer

end ServerSystem

/-- The server is on its way to the return, after so many connections. -/
structure Stopping (arrived : ℕ) (timedOut : Prop) (s : ServerSystem) : Prop where
  reach : ReachOk s
  flag : s.shutdownFlag = true
  stage : s.stage ≠ .accepting
  arrived : s.net.arrived = arrived
  outcome : s.pool.closer.outcome = some (.graceful true) → timedOut

theorem Stopping.exists_step {responsive : ℕ → Prop} {arrived : ℕ} {timedOut : Prop}
    (hresponsive : ∀ conn < arrived, responsive conn) (s : ServerSystem)
    (h : Stopping arrived timedOut s) (hshort : ¬ s.stage = .returned) :
    ∃ a s', s.Own responsive a ∧ s.step a = some s' ∧ Stopping arrived timedOut s' ∧
      s'.effort < s.effort := by
  have hclients : ∀ conn < s.net.arrived, responsive conn := h.arrived ▸ hresponsive
  obtain ⟨a, s', hown, hstep, hnear⟩ :=
    ServerSystem.exists_nearer h.reach hclients h.flag h.stage hshort
  exact ⟨a, s', hown, hstep, ⟨h.reach.step hstep, hnear.flag.trans h.flag, hnear.stage,
    hnear.arrived.trans h.arrived, fun hout => h.outcome (hnear.outcome hout)⟩, hnear.effort⟩

section Results

variable {pool : PoolSystem ℕ} {creates : Slot → Bool} {monitorCreated : Bool} {n : ℤ}
  {actions : List ServerAction} {s : ServerSystem}

/-- **Once `server_shutdown` is called and `accept` has returned, the threads come by themselves to
where `server_run` returns, wherever they are, and accept no connection on the way, if the clients of
the connections let `handle_client` go on. If the wait for the pool has not run out of time, each
connection then has one reply, and none is open.** -/
theorem server_run_returns {responsive : ℕ → Prop}
    (hcreate : threadpoolCreate creates monitorCreated n = some pool)
    (hrun : Runs.run ServerSystem.step (serverRun pool) actions = some s)
    (hresponsive : ∀ conn < s.net.arrived, responsive conn)
    (hflag : s.shutdownFlag = true) (hstage : s.stage ≠ .accepting) :
    ∃ more s', Runs.Meets ServerSystem.step (ServerSystem.Own responsive) s more ∧
      more.length ≤ s.effort ∧ Runs.run ServerSystem.step s more = some s' ∧
      s'.stage = .returned ∧
      (s.pool.closer.outcome ≠ some (.graceful true) →
        s'.net.answered.Perm (List.range s.net.arrived) ∧ ∀ fd, s'.net.table fd = none) := by
  have hreach := (ReachOk.start hcreate).run hrun
  have hstopping : Stopping s.net.arrived (s.pool.closer.outcome = some (.graceful true)) s :=
    ⟨hreach, hflag, hstage, rfl, id⟩
  obtain ⟨more, s', hown, hlength, hrun', hstopping', hreturned⟩ :=
    Runs.exists_run_to ServerSystem.effort (Stopping.exists_step hresponsive) hstopping
  refine ⟨more, s', hown, hlength, hrun', hreturned, fun hintime => ?_⟩
  have hclosed := hstopping'.reach.closed_of_returned hreturned fun hout =>
    hintime (hstopping'.outcome hout)
  obtain ⟨hhead, hactive⟩ := hstopping'.reach.ok.pool.drained (by rw [hclosed]; rfl)
  rw [← hstopping'.arrived]
  exact hstopping'.reach.ok.all_answered
    (hstopping'.reach.ok.pool.jobs.completed_perm hhead hactive) (by rw [hreturned]; rfl)

/-- `SIGINT` comes while the second connection waits for its answer. -/
def signalledRun : List ServerAction := reuseRun.dropLast ++ [.serverShutdown]

theorem server_run_returns_two : ∃ pool s s' : ServerSystem, ∃ more,
    Runs.run ServerSystem.step pool signalledRun = some s ∧
      Runs.run ServerSystem.step s more = some s' ∧ s'.stage = .returned ∧
      s'.net.answered.Perm (List.range 3) ∧ ∀ fd, s'.net.table fd = none := by
  have hall : ((threadpoolCreate (fun _ => true) true 2).bind fun pool =>
      (Runs.run ServerSystem.step (serverRun pool) signalledRun).map fun s =>
        (s.shutdownFlag, s.stage, s.pool.closer, s.net.arrived))
      = some (true, .looping, .idle, 3) := by decide +kernel
  obtain ⟨pool, hcreate, hmap⟩ := Option.bind_eq_some_iff.mp hall
  obtain ⟨s, hrun, hs⟩ := Option.map_eq_some_iff.mp hmap
  obtain ⟨hflag, hrest⟩ := Prod.mk.inj hs
  obtain ⟨hstage, hrest⟩ := Prod.mk.inj hrest
  obtain ⟨hcloser, harrived⟩ := Prod.mk.inj hrest
  obtain ⟨more, s', -, -, hrun', hreturned, hdone⟩ :=
    @server_run_returns _ _ _ _ _ _ (fun _ => True) hcreate hrun (fun _ _ => trivial) hflag
      (by rw [hstage]; simp)
  obtain ⟨hanswered, hclosed⟩ := hdone (by rw [hcloser]; simp [Closer.outcome])
  exact ⟨serverRun pool, s, s', more, hrun, hrun', hreturned, harrived ▸ hanswered, hclosed⟩

end Results

end MiniSql

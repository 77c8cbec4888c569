import MiniSql.Lib.Handles
import MiniSql.Threadpool.Bodies
import MiniSql.Threadpool.Shutdown

/-!
# The server

`server.c`: the thread of `server_run` accepts connections and submits a job for each, or answers
503 itself. A job is the number of a descriptor. The workers answer, close the descriptor, and its
number may be given to the next connection while the call has not returned yet. At the end the pool
is shut down gracefully.

A connection is known by how many were accepted before it. Which request it sends and what the
response says is left out here.

## Main definitions

* `Stage` — where the thread of `server_run` is.
* `ServerSystem` — that thread, the pool, and the open descriptors.
* `ServerSystem.step` — a step of a thread or a call.
* `ServerOk` — who keeps the number of which connection.

## Main results

* `ServerOk.step` — every step keeps this.
* `server_run_replies` — in every run, no connection is answered twice, and each job answers the
  connection that it was submitted for.
* `server_run_drained` — when the shutdown returns 0, each connection has one reply and is closed.
-/

namespace MiniSql

open Handles (Phase)

/-- A response: that of `handle_client`, or 503. -/
inductive ServerReply
  | served (ticket : ℕ)
  | queueFull
  deriving DecidableEq

/-- What `accept` returns: a descriptor, or -1 with `EINTR` or with something else. -/
inductive Accepted
  | client (fd : ℕ)
  | interrupted
  | failed

/-- Where the thread of `server_run` is. -/
inductive Stage
  | looping
  | accepting
  | accepted (fd : ℕ)
  | busy (fd : ℕ)
  | refused (fd : ℕ)
  | leaving
  | draining
  | returned
  deriving DecidableEq

/-- The server. `call` is how far `handle_client` is on a worker, `sent` the connections of the
jobs. -/
structure ServerSystem where
  pool : PoolSystem ℕ
  stage : Stage
  shutdownFlag : Bool
  net : Handles ServerReply
  call : Slot → Phase
  sent : List ℕ

namespace ServerSystem

/-- `accept` returns. A new descriptor has a number that is not open. -/
def acceptReturns (s : ServerSystem) : Accepted → Option ServerSystem
  | .client fd =>
    if (s.net.table fd).isSome then none
    else some { s with net := s.net.accept fd, stage := .accepted fd }
  | .interrupted => some { s with stage := .looping }
  | .failed => some { s with stage := if s.shutdownFlag then .leaving else .looping }

/-- `threadpool_submit(pool, handle_client, client_fd)`. -/
def submitJob (s : ServerSystem) (fd addr : ℕ) (woken : Option Slot) : Option ServerSystem :=
  if s.pool.isFreed then none
  else (s.pool.threadpoolSubmit fd addr woken).map fun (accepted, pool) =>
    if accepted then
      { s with pool := pool, sent := s.sent ++ (s.net.table fd).toList, stage := .looping }
    else { s with pool := pool, stage := .busy fd }

/-- `handle_client` writes its response. -/
def replyJob (s : ServerSystem) (slot : Slot) : Option ServerSystem :=
  match s.pool.worker slot, s.call slot with
  | .running job, .waiting => some { s with
      net := s.net.reply job.body (.served job.ticket)
      call := Function.update s.call slot .answered }
  | _, _ => none

/-- `handle_client` closes its descriptor. -/
def closeJob (s : ServerSystem) (slot : Slot) : Option ServerSystem :=
  match s.pool.worker slot, s.call slot with
  | .running job, .answered => some { s with
      net := s.net.close job.body
      call := Function.update s.call slot .closed }
  | _, _ => none

/-- A step of the pool. The thread of `server_run` submits and shuts down itself, and a call of
`handle_client` does not return before it has closed its descriptor. -/
def poolStep (s : ServerSystem) : PoolSystem.Action ℕ → Option ServerSystem
  | .submit _ _ _ | .shutdown | .shutdownGraceful => none
  | .return slot =>
    match s.call slot with
    | .closed => (s.pool.step (.return slot)).map fun pool =>
        { s with pool := pool, call := Function.update s.call slot .waiting }
    | _ => none
  | a => (s.pool.step a).map fun pool => { s with pool := pool }

end ServerSystem

/-- A step of a thread, or a call. `test` is the condition of the loop, `refuse` and
`closeRefused` are the branch that answers 503. -/
inductive ServerAction
  | serverShutdown
  | test
  | accept (result : Accepted)
  | submit (addr : ℕ) (woken : Option Slot)
  | refuse
  | closeRefused
  | stop
  | drained
  | reply (slot : Slot)
  | close (slot : Slot)
  | pool (a : PoolSystem.Action ℕ)

namespace ServerSystem

/-- A step. -/
def step (s : ServerSystem) : ServerAction → Option ServerSystem
  | .serverShutdown => some { s with shutdownFlag := true }
  | .test =>
    match s.stage with
    | .looping => some { s with stage := if s.shutdownFlag then .leaving else .accepting }
    | _ => none
  | .accept result =>
    match s.stage with
    | .accepting => s.acceptReturns result
    | _ => none
  | .submit addr woken =>
    match s.stage with
    | .accepted fd => s.submitJob fd addr woken
    | _ => none
  | .refuse =>
    match s.stage with
    | .busy fd => some { s with net := s.net.reply fd .queueFull, stage := .refused fd }
    | _ => none
  | .closeRefused =>
    match s.stage with
    | .refused fd => some { s with net := s.net.close fd, stage := .looping }
    | _ => none
  | .stop =>
    match s.stage with
    | .leaving =>
      (s.pool.step .shutdownGraceful).map fun pool => { s with pool := pool, stage := .draining }
    | _ => none
  | .drained =>
    match s.stage with
    | .draining => if s.pool.isFreed then some { s with stage := .returned } else none
    | _ => none
  | .reply slot => s.replyJob slot
  | .close slot => s.closeJob slot
  | .pool a => s.poolStep a

end ServerSystem

/-- A step of the pool is the return of a call that has closed its descriptor, or one that is neither
a submit, a return nor a shutdown. -/
theorem ServerSystem.poolStep_cases {s s' : ServerSystem} {a : PoolSystem.Action ℕ}
    (hstep : s.poolStep a = some s') :
    (∃ slot pool, a = .return slot ∧ s.call slot = .closed ∧
      s.pool.step (.return slot) = some pool ∧
      s' = { s with pool := pool, call := Function.update s.call slot .waiting }) ∨
    (∀ body addr woken, a ≠ .submit body addr woken) ∧ (∀ slot, a ≠ .return slot) ∧
      (a ≠ .shutdown ∧ a ≠ .shutdownGraceful) ∧
      ∃ pool, s.pool.step a = some pool ∧ s' = { s with pool := pool } := by
  cases a with
  | «return» slot =>
    unfold poolStep at hstep
    dsimp only at hstep
    cases hcall : s.call slot <;> simp only [hcall, reduceCtorEq] at hstep
    obtain ⟨pool, hpool, rfl⟩ := Option.map_eq_some_iff.mp hstep
    exact Or.inl ⟨slot, pool, rfl, hcall, hpool, rfl⟩
  | submit | shutdown | shutdownGraceful => simp [poolStep] at hstep
  | _ =>
    obtain ⟨pool, hpool, rfl⟩ := Option.map_eq_some_iff.mp hstep
    exact Or.inr ⟨by simp, by simp, by simp, pool, hpool, rfl⟩

/-- The server at the loop of `server_run`, with its pool. -/
def serverRun (pool : PoolSystem ℕ) : ServerSystem where
  pool := pool
  stage := .looping
  shutdownFlag := false
  net := .empty
  call := fun _ => .waiting
  sent := []

/-! ## Who keeps which number -/

/-- The descriptor that the thread of `server_run` has, and how far its connection is. -/
def Stage.holds : Stage → Option (ℕ × Phase)
  | .accepted fd | .busy fd => some (fd, .waiting)
  | .refused fd => some (fd, .answered)
  | _ => none

theorem Stage.holds_open {stage : Stage} {fd : ℕ} {p : Phase} (h : stage.holds = some (fd, p)) :
    p ≠ .closed := by
  rintro rfl
  cases stage <;> simp [Stage.holds] at h

/-- The job is that of a connection, which is so far. -/
def ServerSystem.Owes (s : ServerSystem) (job : Job ℕ) (p : Phase) : Prop :=
  ∃ conn, s.sent[job.ticket]? = some conn ∧ s.net.At job.body conn p

/-- Jobs and the thread of `server_run` have the numbers of different connections. -/
structure ServerOk (s : ServerSystem) : Prop where
  pool : PoolInv s.pool
  net : s.net.Ok
  length_sent : s.sent.length = s.pool.accepted
  sent_nodup : s.sent.Nodup
  sent_lt : ∀ conn ∈ s.sent, conn < s.net.arrived
  queued : ∀ job, s.pool.Queued job → s.Owes job .waiting
  held : ∀ slot job, (s.pool.worker slot).job = some job → s.Owes job (s.call slot)
  idle : ∀ slot, (∀ job, s.pool.worker slot ≠ .running job) → s.call slot = .waiting
  completed : ∀ ticket ∈ s.pool.completed, ∃ conn, s.sent[ticket]? = some conn ∧
    s.net.At 0 conn .closed
  stage : ∀ fd p, s.stage.holds = some (fd, p) → ∃ conn, conn ∉ s.sent ∧ s.net.At fd conn p
  covered : ∀ conn < s.net.arrived, conn ∉ s.sent →
    s.net.At 0 conn .closed ∨ ∃ fd p, s.stage.holds = some (fd, p) ∧ s.net.At fd conn p
  served : ∀ conn ticket, (conn, .served ticket) ∈ s.net.replies → s.sent[ticket]? = some conn
  refused : ∀ conn, (conn, .queueFull) ∈ s.net.replies → conn ∉ s.sent

namespace ServerOk

open ServerSystem

variable {s : ServerSystem}

/-- Two jobs are for two connections. -/
theorem conn_ne (h : ServerOk s) {ticket ticket' conn conn' : ℕ} (hconn : s.sent[ticket]? = some conn)
    (hconn' : s.sent[ticket']? = some conn') (hne : ticket ≠ ticket') : conn ≠ conn' := by
  rintro rfl
  exact hne ((List.getElem?_inj (List.getElem?_eq_some_iff.mp hconn).1 h.sent_nodup).mp
    (hconn.trans hconn'.symm))

/-! ### The connection of a job -/

/-- A worker's call does something to its connection, and nothing to the others. -/
theorem work (h : ServerOk s) {slot : Slot} {job : Job ℕ} {conn : ℕ} {net : Handles ServerReply}
    {p : Phase}
    (hw : s.pool.worker slot = .running job) (hconn : s.sent[job.ticket]? = some conn)
    (hok : net.Ok) (harrived : net.arrived = s.net.arrived) (hat : net.At job.body conn p)
    (hothers : ∀ fd other q, other ≠ conn → s.net.At fd other q → net.At fd other q)
    (hreplies : ∀ other r, (other, r) ∈ net.replies →
      (other, r) ∈ s.net.replies ∨ other = conn ∧ r = .served job.ticket) :
    ServerOk { s with net := net, call := Function.update s.call slot p } := by
  have hjob : (s.pool.worker slot).job = some job := by
    rw [hw]
    rfl
  obtain ⟨hdequeued, hopen⟩ := h.pool.jobs.ticket_held hjob
  have hsent : conn ∈ s.sent := List.mem_of_getElem? hconn
  refine ⟨h.pool, hok, h.length_sent, h.sent_nodup, fun c hc => harrived ▸ h.sent_lt c hc, ?_, ?_, ?_,
    ?_, ?_, ?_, ?_, ?_⟩
  · intro job' hjob'
    obtain ⟨conn', hconn', hat'⟩ := h.queued job' hjob'
    have hne : job'.ticket ≠ job.ticket := by
      intro heq
      exact (h.pool.jobs.ticket_queued hjob').2 (heq ▸ hdequeued)
    exact ⟨conn', hconn', hothers _ _ _ (h.conn_ne hconn' hconn hne) hat'⟩
  · intro slot' job' hjob'
    dsimp only at hjob'
    by_cases hslot : slot' = slot
    · subst hslot
      obtain rfl := Option.some.inj (hjob.symm.trans hjob')
      refine ⟨conn, hconn, ?_⟩
      dsimp only
      rwa [Function.update_self]
    · obtain ⟨conn', hconn', hat'⟩ := h.held slot' job' hjob'
      have hne : job'.ticket ≠ job.ticket := fun heq => hslot (h.pool.jobs.unique hjob' hjob heq)
      refine ⟨conn', hconn', ?_⟩
      dsimp only
      rw [Function.update_of_ne hslot]
      exact hothers _ _ _ (h.conn_ne hconn' hconn hne) hat'
  · intro slot' hidle
    dsimp only at hidle ⊢
    have hslot : slot' ≠ slot := by
      rintro rfl
      exact hidle job hw
    rw [Function.update_of_ne hslot]
    exact h.idle slot' hidle
  · intro ticket hticket
    obtain ⟨conn', hconn', hat'⟩ := h.completed ticket hticket
    have hne : ticket ≠ job.ticket := by
      rintro rfl
      exact hopen hticket
    exact ⟨conn', hconn', hothers _ _ _ (h.conn_ne hconn' hconn hne) hat'⟩
  · intro fd q hholds
    obtain ⟨conn', hconn', hat'⟩ := h.stage fd q hholds
    refine ⟨conn', hconn', hothers _ _ _ ?_ hat'⟩
    rintro rfl
    exact hconn' hsent
  · intro conn' hlt hnot
    have hne : conn' ≠ conn := by
      rintro rfl
      exact hnot hsent
    rcases h.covered conn' (harrived ▸ hlt) hnot with hclosed | ⟨fd, q, hholds, hat'⟩
    · exact Or.inl (hothers _ _ _ hne hclosed)
    · exact Or.inr ⟨fd, q, hholds, hothers _ _ _ hne hat'⟩
  · intro other ticket hmem
    rcases hreplies other _ hmem with hold | ⟨rfl, hr⟩
    · exact h.served other ticket hold
    · obtain rfl := ServerReply.served.inj hr
      exact hconn
  · intro other hmem
    rcases hreplies other _ hmem with hold | ⟨-, hr⟩
    · exact h.refused other hold
    · exact absurd hr (by simp)

/-! ### The connection of the thread of `server_run` -/

/-- The thread does something to its connection, and nothing to the others. -/
theorem main (h : ServerOk s) {fd conn : ℕ} {p q : Phase} {net : Handles ServerReply} {stage : Stage}
    (hholds : s.stage.holds = some (fd, p)) (hnot : conn ∉ s.sent) (hconn : s.net.At fd conn p)
    (hok : net.Ok) (harrived : net.arrived = s.net.arrived) (hat : net.At fd conn q)
    (hstage : stage.holds = if q = .closed then none else some (fd, q))
    (hothers : ∀ fd other q, other ≠ conn → s.net.At fd other q → net.At fd other q)
    (hreplies : ∀ other r, (other, r) ∈ net.replies →
      (other, r) ∈ s.net.replies ∨ other = conn ∧ r = .queueFull) :
    ServerOk { s with net := net, stage := stage } := by
  have howes : ∀ {job r}, s.Owes job r →
      ({ s with net := net, stage := stage } : ServerSystem).Owes job r := by
    rintro job r ⟨conn', hconn', hat'⟩
    refine ⟨conn', hconn', hothers _ _ _ ?_ hat'⟩
    rintro rfl
    exact hnot (List.mem_of_getElem? hconn')
  refine ⟨h.pool, hok, h.length_sent, h.sent_nodup, fun c hc => harrived ▸ h.sent_lt c hc,
    fun job hjob => howes (h.queued job hjob), fun slot job hjob => howes (h.held slot job hjob),
    h.idle, ?_, ?_, ?_, ?_, ?_⟩
  · intro ticket hticket
    obtain ⟨conn', hconn', hat'⟩ := h.completed ticket hticket
    refine ⟨conn', hconn', hothers _ _ _ ?_ hat'⟩
    rintro rfl
    exact hnot (List.mem_of_getElem? hconn')
  · intro fd' q' hholds'
    dsimp only at hholds'
    rw [hstage] at hholds'
    by_cases hq : q = .closed
    · simp [hq] at hholds'
    · rw [if_neg hq] at hholds'
      obtain ⟨rfl, rfl⟩ := Prod.mk.inj (Option.some.inj hholds')
      exact ⟨conn, hnot, hat⟩
  · intro conn' hlt hnot'
    dsimp only
    by_cases heq : conn' = conn
    · rw [heq, hstage]
      by_cases hq : q = .closed
      · subst hq
        exact Or.inl hat
      · exact Or.inr ⟨fd, q, if_neg hq, hat⟩
    · rcases h.covered conn' (harrived ▸ hlt) hnot' with hclosed | ⟨fd', q', hholds', hat'⟩
      · exact Or.inl (hothers _ _ _ heq hclosed)
      · obtain ⟨rfl, rfl⟩ := Prod.mk.inj (Option.some.inj (hholds.symm.trans hholds'))
        have hopen := Stage.holds_open hholds
        have htable := (hat'.table_eq hopen).symm.trans (hconn.table_eq hopen)
        exact absurd (Option.some.inj htable) heq
  · intro other ticket hmem
    rcases hreplies other _ hmem with hold | ⟨-, hr⟩
    · exact h.served other ticket hold
    · exact absurd hr (by simp)
  · intro other hmem
    rcases hreplies other _ hmem with hold | ⟨rfl, -⟩
    · exact h.refused other hold
    · exact hnot

/-- The thread moves on with what it has. -/
theorem goOn (h : ServerOk s) {stage : Stage} {flag : Bool} (hholds : stage.holds = s.stage.holds) :
    ServerOk { s with stage := stage, shutdownFlag := flag } where
  pool := h.pool
  net := h.net
  length_sent := h.length_sent
  sent_nodup := h.sent_nodup
  sent_lt := h.sent_lt
  queued := h.queued
  held := h.held
  idle := h.idle
  completed := h.completed
  stage := fun fd p hstage => h.stage fd p (hholds.symm.trans hstage)
  covered := by
    intro conn hlt hnot
    dsimp only
    rw [hholds]
    exact h.covered conn hlt hnot
  served := h.served
  refused := h.refused

/-- A connection is accepted. -/
theorem acceptClient (h : ServerOk s) {fd : ℕ} (hfree : s.net.table fd = none)
    (hnone : s.stage.holds = none) :
    ServerOk { s with net := s.net.accept fd, stage := .accepted fd } := by
  have howes : ∀ {job p}, s.Owes job p →
      ({ s with net := s.net.accept fd, stage := .accepted fd } : ServerSystem).Owes job p := by
    rintro job p ⟨conn, hconn, hat⟩
    exact ⟨conn, hconn, hat.accept h.net hfree⟩
  refine ⟨h.pool, h.net.accept hfree, h.length_sent, h.sent_nodup,
    fun c hc => Nat.lt_succ_of_lt (h.sent_lt c hc), fun job hjob => howes (h.queued job hjob),
    fun slot job hjob => howes (h.held slot job hjob), h.idle, ?_, ?_, ?_, h.served, h.refused⟩
  · intro ticket hticket
    obtain ⟨conn, hconn, hat⟩ := h.completed ticket hticket
    exact ⟨conn, hconn, hat.accept h.net hfree⟩
  · intro fd' p hholds
    obtain ⟨rfl, rfl⟩ := Prod.mk.inj (Option.some.inj hholds)
    refine ⟨s.net.arrived, ?_, h.net.at_accept_self hfree⟩
    intro hmem
    exact Nat.lt_irrefl _ (h.sent_lt _ hmem)
  · intro conn hlt hnot
    rcases Nat.lt_succ_iff_lt_or_eq.mp hlt with hlt | rfl
    · rcases h.covered conn hlt hnot with hclosed | ⟨fd', p, hholds, -⟩
      · exact Or.inl (hclosed.accept h.net hfree)
      · exact absurd (hnone.symm.trans hholds) (by simp)
    · exact Or.inr ⟨fd, .waiting, rfl, h.net.at_accept_self hfree⟩

/-! ### Steps of the pool -/

/-- No job comes and none goes. -/
theorem carry (h : ServerOk s) {pool : PoolSystem ℕ} (hpool : PoolInv pool)
    (hcarries : Carries s.pool pool) : ServerOk { s with pool := pool } := by
  refine ⟨hpool, h.net, ?_, h.sent_nodup, h.sent_lt,
    fun job hjob => h.queued job (hcarries.queued job hjob), ?_, ?_, ?_, h.stage, h.covered, h.served, h.refused⟩
  · exact h.length_sent.trans hcarries.accepted.symm
  · intro slot job hjob
    rcases hcarries.held slot job hjob with hold | ⟨hready, hqueued⟩
    · exact h.held slot job hold
    · have hidle : s.call slot = .waiting := h.idle slot (by simp [hready])
      have howes := h.queued job hqueued
      rwa [← hidle] at howes
  · intro slot hidle
    exact h.idle slot fun job hw => hidle job (hcarries.running slot job hw)
  · intro ticket hticket
    exact h.completed ticket (hcarries.completed ▸ hticket)

/-- The call of `handle_client` returns. -/
theorem comeBack (h : ServerOk s) {slot : Slot} {pool : PoolSystem ℕ} (hcall : s.call slot = .closed)
    (hstep : s.pool.step (.return slot) = some pool) :
    ServerOk { s with pool := pool, call := Function.update s.call slot .waiting } := by
  have hpool := h.pool.step hstep
  obtain ⟨job, hw, rfl⟩ := PoolSystem.workerReturn_cases (PoolSystem.step_eq_some.mp hstep).2
  have hjob : (s.pool.worker slot).job = some job := by
    rw [hw]
    rfl
  refine ⟨hpool, h.net, h.length_sent, h.sent_nodup, h.sent_lt, h.queued, ?_, ?_, ?_, h.stage,
    h.covered, h.served, h.refused⟩
  · intro slot' job' hjob'
    have hslot : slot' ≠ slot := by
      rintro rfl
      simp [PoolSystem.setWorker, Worker.job] at hjob'
    have hold : (s.pool.worker slot').job = some job' := by
      simpa [PoolSystem.setWorker, hslot] using hjob'
    obtain ⟨conn, hconn, hat⟩ := h.held slot' job' hold
    refine ⟨conn, hconn, ?_⟩
    dsimp only
    rwa [Function.update_of_ne hslot]
  · intro slot' hidle
    by_cases hslot : slot' = slot
    · subst hslot
      simp
    · dsimp only
      rw [Function.update_of_ne hslot]
      apply h.idle
      intro job' hw'
      apply hidle job'
      simp [PoolSystem.setWorker, hslot, hw']
  · intro ticket hticket
    rcases List.mem_append.mp hticket with hold | hnew
    · exact h.completed ticket hold
    · obtain rfl := List.mem_singleton.mp hnew
      obtain ⟨conn, hconn, hat⟩ := h.held slot job hjob
      rw [hcall] at hat
      exact ⟨conn, hconn, hat⟩

/-- A job is accepted for the connection that the thread has. -/
theorem submitted (h : ServerOk s) {fd conn addr : ℕ} {pool : PoolSystem ℕ}
    (hholds : s.stage.holds = some (fd, .waiting)) (hnot : conn ∉ s.sent)
    (hat : s.net.At fd conn .waiting) (hpool : PoolInv pool) (ha : Accepts s.pool pool fd addr) :
    ServerOk { s with pool := pool, sent := s.sent ++ [conn], stage := .looping } := by
  have hold : ∀ {ticket c : ℕ}, s.sent[ticket]? = some c → (s.sent ++ [conn])[ticket]? = some c := by
    intro ticket c hc
    rwa [List.getElem?_append_left (List.getElem?_eq_some_iff.mp hc).1]
  have howes : ∀ {job p}, s.Owes job p → ({ s with
      pool := pool, sent := s.sent ++ [conn], stage := .looping } : ServerSystem).Owes job p := by
    rintro job p ⟨c, hc, hat'⟩
    exact ⟨c, hold hc, hat'⟩
  refine ⟨hpool, h.net, ?_, ?_, ?_, ?_, ?_, ?_, ?_, ?_, ?_, ?_, ?_⟩
  · rw [ha.accepted, ← h.length_sent]
    simp
  · exact h.sent_nodup.append (List.nodup_singleton conn) (List.disjoint_singleton.mpr hnot)
  · intro c hc
    rcases List.mem_append.mp hc with hc | hc
    · exact h.sent_lt c hc
    · obtain rfl := List.mem_singleton.mp hc
      exact hat.lt h.net
  · intro job hjob
    rcases ha.queued h.pool.jobs hjob with hjob | rfl
    · exact howes (h.queued job hjob)
    · refine ⟨conn, ?_, hat⟩
      rw [← h.length_sent]
      simp
  · intro slot job hjob
    rw [Worker.job_eq_of_load (ha.load slot)] at hjob
    exact howes (h.held slot job hjob)
  · intro slot hidle
    apply h.idle
    intro job hw
    exact hidle job (Worker.eq_running_of_load (hw ▸ ha.load slot))
  · intro ticket hticket
    obtain ⟨c, hc, hclosed⟩ := h.completed ticket (ha.completed ▸ hticket)
    exact ⟨c, hold hc, hclosed⟩
  · intro fd' p hnone
    exact absurd hnone (by simp [Stage.holds])
  · intro c hlt hc
    have hc' : c ∉ s.sent := fun hmem => hc (List.mem_append_left _ hmem)
    rcases h.covered c hlt hc' with hclosed | ⟨fd', p, hholds', hat'⟩
    · exact Or.inl hclosed
    · obtain ⟨rfl, rfl⟩ := Prod.mk.inj (Option.some.inj (hholds.symm.trans hholds'))
      obtain rfl := Option.some.inj (hat'.1.symm.trans hat.1)
      exact absurd (List.mem_append_right _ (List.mem_singleton_self c)) hc
  · intro c ticket hmem
    exact hold (h.served c ticket hmem)
  · intro c hmem hc
    rcases List.mem_append.mp hc with hc | hc
    · exact h.refused c hmem hc
    · obtain rfl := List.mem_singleton.mp hc
      exact hat.2 (List.mem_map_of_mem hmem)

/-! ### Every step -/

theorem answer (h : ServerOk s) {slot : Slot} {s' : ServerSystem}
    (hstep : s.replyJob slot = some s') : ServerOk s' := by
  unfold replyJob at hstep
  cases hw : s.pool.worker slot <;> simp only [hw, reduceCtorEq] at hstep
  rename_i job
  cases hcall : s.call slot <;> simp only [hcall, reduceCtorEq] at hstep
  obtain rfl := Option.some.inj hstep
  obtain ⟨conn, hconn, hat⟩ := h.held slot job (by rw [hw]; rfl)
  rw [hcall] at hat
  refine h.work hw hconn (h.net.reply hat _) rfl (hat.reply_self _) ?_ ?_
  · intro fd other q hne hother
    exact hother.reply_of_ne hat.1 hne _
  · intro other r hmem
    rw [Handles.replies_reply hat.1] at hmem
    rcases List.mem_append.mp hmem with hold | hnew
    · exact Or.inl hold
    · obtain ⟨rfl, rfl⟩ := Prod.mk.inj (List.mem_singleton.mp hnew)
      exact Or.inr ⟨rfl, rfl⟩

theorem closed (h : ServerOk s) {slot : Slot} {s' : ServerSystem}
    (hstep : s.closeJob slot = some s') : ServerOk s' := by
  unfold closeJob at hstep
  cases hw : s.pool.worker slot <;> simp only [hw, reduceCtorEq] at hstep
  rename_i job
  cases hcall : s.call slot <;> simp only [hcall, reduceCtorEq] at hstep
  obtain rfl := Option.some.inj hstep
  obtain ⟨conn, hconn, hat⟩ := h.held slot job (by rw [hw]; rfl)
  rw [hcall] at hat
  refine h.work hw hconn (h.net.close _) rfl (hat.close_self h.net) ?_ fun _ _ => Or.inl
  intro fd other q hne hother
  exact hother.close_of_ne hat.1 hne

theorem poolStep (h : ServerOk s) {a : PoolSystem.Action ℕ} {s' : ServerSystem}
    (hstep : s.poolStep a = some s') : ServerOk s' := by
  rcases poolStep_cases hstep with
    ⟨slot, pool, rfl, hcall, hpool, rfl⟩ | ⟨hsubmit, hreturn, -, pool, hpool, rfl⟩
  · exact h.comeBack hcall hpool
  · exact h.carry (h.pool.step hpool) (carries_of_step h.pool hpool hsubmit hreturn)

theorem submit (h : ServerOk s) {fd addr : ℕ} {woken : Option Slot} {s' : ServerSystem}
    (hholds : s.stage.holds = some (fd, .waiting)) (hstep : s.submitJob fd addr woken = some s') :
    ServerOk s' := by
  unfold submitJob at hstep
  by_cases hfreed : s.pool.isFreed = true
  · simp [hfreed] at hstep
  rw [if_neg hfreed] at hstep
  obtain ⟨⟨accepted, pool⟩, hsubmit, rfl⟩ := Option.map_eq_some_iff.mp hstep
  have hpool : PoolInv pool := by
    apply h.pool.step (a := .submit fd addr woken)
    refine PoolSystem.step_eq_some.mpr ⟨hfreed, ?_⟩
    exact Option.map_eq_some_iff.mpr ⟨_, hsubmit, rfl⟩
  cases accepted with
  | false =>
    have hcarried := h.carry hpool (quiet_submit hsubmit).carries
    exact hcarried.goOn hholds.symm
  | true =>
    obtain ⟨conn, hnot, hat⟩ := h.stage fd _ hholds
    have hsent : (s.net.table fd).toList = [conn] := by
      rw [hat.1]
      rfl
    dsimp only
    rw [if_pos rfl, hsent]
    exact h.submitted hholds hnot hat hpool (accepts_submit hsubmit)

/-- **Every step keeps it.** -/
theorem step (h : ServerOk s) {a : ServerAction} {s' : ServerSystem} (hstep : s.step a = some s') :
    ServerOk s' := by
  cases a with
  | serverShutdown =>
    obtain rfl := Option.some.inj hstep
    exact h.goOn rfl
  | test =>
    unfold ServerSystem.step at hstep
    cases hstage : s.stage <;> simp only [hstage, reduceCtorEq] at hstep
    obtain rfl := Option.some.inj hstep
    apply h.goOn
    rw [hstage]
    split <;> rfl
  | accept result =>
    unfold ServerSystem.step at hstep
    cases hstage : s.stage <;> simp only [hstage, reduceCtorEq] at hstep
    cases result with
    | client fd =>
      unfold acceptReturns at hstep
      dsimp only at hstep
      obtain ⟨hfree, heq⟩ := Option.ite_none_left_eq_some.mp hstep
      obtain rfl := Option.some.inj heq
      apply h.acceptClient (by simpa using hfree)
      rw [hstage]
      rfl
    | interrupted =>
      obtain rfl := Option.some.inj hstep
      apply h.goOn
      rw [hstage]
      rfl
    | failed =>
      obtain rfl := Option.some.inj hstep
      apply h.goOn
      rw [hstage]
      split <;> rfl
  | submit addr woken =>
    unfold ServerSystem.step at hstep
    cases hstage : s.stage <;> simp only [hstage, reduceCtorEq] at hstep
    exact h.submit (by rw [hstage]; rfl) hstep
  | refuse =>
    unfold ServerSystem.step at hstep
    cases hstage : s.stage <;> simp only [hstage, reduceCtorEq] at hstep
    rename_i fd
    obtain rfl := Option.some.inj hstep
    have hholds : s.stage.holds = some (fd, .waiting) := by
      rw [hstage]
      rfl
    obtain ⟨conn, hnot, hat⟩ := h.stage fd _ hholds
    refine h.main hholds hnot hat (h.net.reply hat _) rfl (hat.reply_self _) rfl ?_ ?_
    · intro fd' other q hne hother
      exact hother.reply_of_ne hat.1 hne _
    · intro other r hmem
      rw [Handles.replies_reply hat.1] at hmem
      rcases List.mem_append.mp hmem with hold | hnew
      · exact Or.inl hold
      · obtain ⟨rfl, rfl⟩ := Prod.mk.inj (List.mem_singleton.mp hnew)
        exact Or.inr ⟨rfl, rfl⟩
  | closeRefused =>
    unfold ServerSystem.step at hstep
    cases hstage : s.stage <;> simp only [hstage, reduceCtorEq] at hstep
    rename_i fd
    obtain rfl := Option.some.inj hstep
    have hholds : s.stage.holds = some (fd, .answered) := by
      rw [hstage]
      rfl
    obtain ⟨conn, hnot, hat⟩ := h.stage fd _ hholds
    refine h.main hholds hnot hat (h.net.close _) rfl (hat.close_self h.net) rfl ?_ fun _ _ => Or.inl
    intro fd' other q hne hother
    exact hother.close_of_ne hat.1 hne
  | stop =>
    unfold ServerSystem.step at hstep
    cases hstage : s.stage <;> simp only [hstage, reduceCtorEq] at hstep
    obtain ⟨pool, hpool, rfl⟩ := Option.map_eq_some_iff.mp hstep
    have hcarried := h.carry (h.pool.step hpool) (carries_of_step h.pool hpool (by simp) (by simp))
    apply hcarried.goOn
    rw [hstage]
    rfl
  | drained =>
    unfold ServerSystem.step at hstep
    cases hstage : s.stage <;> simp only [hstage, reduceCtorEq] at hstep
    obtain ⟨-, heq⟩ := Option.ite_none_right_eq_some.mp hstep
    obtain rfl := Option.some.inj heq
    apply h.goOn
    rw [hstage]
    rfl
  | reply slot => exact h.answer hstep
  | close slot => exact h.closed hstep
  | pool a => exact h.poolStep hstep

theorem start {pool : PoolSystem ℕ} {creates : Slot → Bool} {monitorCreated : Bool} {n : ℤ}
    (hcreate : threadpoolCreate creates monitorCreated n = some pool) : ServerOk (serverRun pool) := by
  have hquiet := Quiet.create hcreate
  have hnone : ∀ slot, (pool.worker slot).job = none := by
    intro slot
    rw [Worker.job_eq_of_load (hquiet.load slot)]
    rfl
  refine ⟨PoolInv.create hcreate, Handles.ok_empty, hquiet.accepted.symm, List.nodup_nil, ?_, ?_,
    ?_, ?_, ?_, ?_, ?_, ?_, ?_⟩
  · simp [serverRun]
  · intro job hjob
    obtain ⟨jobs, hholds, hmem⟩ := hquiet.carries.queued job hjob
    rw [hholds.unique LinkedQueue.holds_empty] at hmem
    simp at hmem
  · intro slot job hjob
    exact absurd ((hnone slot).symm.trans hjob) (by simp)
  · intro slot _
    rfl
  · intro ticket hticket
    rw [show (serverRun pool).pool.completed = [] from hquiet.completed] at hticket
    simp at hticket
  all_goals simp [serverRun, Stage.holds, Handles.empty]

/-- **So does the server after any steps of any threads.** -/
theorem run (h : ServerOk s) {actions : List ServerAction} {s' : ServerSystem}
    (hrun : Runs.run ServerSystem.step s actions = some s') : ServerOk s' :=
  Runs.preserves (fun _ _ _ hok hstep => hok.step hstep) h hrun

/-- **Who has an open descriptor**: the thread of `server_run`, or a job that has not closed it. -/
theorem owner (h : ServerOk s) {fd conn : ℕ} (hfd : s.net.table fd = some conn) :
    (∃ p, s.stage.holds = some (fd, p)) ∨
      ∃ job, job.body = fd ∧ s.sent[job.ticket]? = some conn ∧
        (s.pool.Queued job ∨ ∃ slot, (s.pool.worker slot).job = some job ∧ s.call slot ≠ .closed) := by
  have hopen : ¬ s.net.At 0 conn .closed := fun hclosed => hclosed.2 fd hfd
  by_cases hsent : conn ∈ s.sent
  · right
    obtain ⟨ticket, hticket⟩ := List.mem_iff_getElem?.mp hsent
    have hlt : ticket < s.pool.accepted := h.length_sent ▸ (List.getElem?_eq_some_iff.mp hticket).1
    have hsame : ∀ {job p}, job.ticket = ticket → s.Owes job p → s.net.At job.body conn p := by
      rintro job p rfl ⟨conn', hconn', hat⟩
      rwa [Option.some.inj (hconn'.symm.trans hticket)] at hat
    rcases h.pool.jobs.locate hlt with hdone | ⟨job, hqueued, hjob⟩ | ⟨slot, job, hheld, hjob⟩
    · obtain ⟨conn', hconn', hclosed⟩ := h.completed ticket hdone
      rw [Option.some.inj (hconn'.symm.trans hticket)] at hclosed
      exact absurd hclosed hopen
    · have hat := hsame hjob (h.queued job hqueued)
      exact ⟨job, h.net.unique _ _ conn hat.1 hfd, hjob ▸ hticket, Or.inl hqueued⟩
    · have hat := hsame hjob (h.held slot job hheld)
      have hcall : s.call slot ≠ .closed := by
        intro hcall
        rw [hcall] at hat
        exact hopen hat
      exact ⟨job, h.net.unique _ _ conn (hat.table_eq hcall) hfd, hjob ▸ hticket,
        Or.inr ⟨slot, hheld, hcall⟩⟩
  · left
    rcases h.covered conn (h.net.table_lt fd conn hfd) hsent with hclosed | ⟨fd', p, hholds, hat⟩
    · exact absurd hclosed hopen
    · have hsame := h.net.unique _ _ conn (hat.table_eq (Stage.holds_open hholds)) hfd
      exact ⟨p, hsame ▸ hholds⟩

/-- **All jobs are done and the thread has no descriptor: each connection has a reply, and none is
open.** -/
theorem all_answered (h : ServerOk s) (hdone : s.pool.completed.Perm (List.range s.pool.accepted))
    (hholds : s.stage.holds = none) :
    s.net.answered.Perm (List.range s.net.arrived) ∧ ∀ fd, s.net.table fd = none := by
  have hclosed : ∀ conn < s.net.arrived, s.net.At 0 conn .closed := by
    intro conn hlt
    by_cases hsent : conn ∈ s.sent
    · obtain ⟨ticket, hticket⟩ := List.mem_iff_getElem?.mp hsent
      have haccepted : ticket < s.pool.accepted :=
        h.length_sent ▸ (List.getElem?_eq_some_iff.mp hticket).1
      have hticket' := hdone.mem_iff.mpr (List.mem_range.mpr haccepted)
      obtain ⟨conn', hconn', hat⟩ := h.completed ticket hticket'
      rwa [Option.some.inj (hconn'.symm.trans hticket)] at hat
    · rcases h.covered conn hlt hsent with hat | ⟨fd, p, hsome, -⟩
      · exact hat
      · exact absurd (hholds.symm.trans hsome) (by simp)
  constructor
  · rw [List.perm_ext_iff_of_nodup h.net.nodup List.nodup_range]
    intro conn
    rw [List.mem_range]
    exact ⟨h.net.answered_lt conn, fun hlt => (hclosed conn hlt).1⟩
  · intro fd
    by_contra hsome
    obtain ⟨conn, hconn⟩ := Option.ne_none_iff_exists'.mp hsome
    exact (hclosed conn (h.net.table_lt fd conn hconn)).2 fd hconn

end ServerOk

/-! ## Runs -/

section Results

variable {pool : PoolSystem ℕ} {creates : Slot → Bool} {monitorCreated : Bool} {n : ℤ}
  {actions : List ServerAction} {s : ServerSystem}

/-- **In every run of the server, whatever the threads do in which order and whichever numbers the
descriptors get: no connection has two replies; the reply of a job is for the connection that it was
submitted for, and 503 for one that has no job; an open connection has one descriptor, and the
thread of `server_run` has it or a job that will close it.** -/
theorem server_run_replies (hcreate : threadpoolCreate creates monitorCreated n = some pool)
    (hrun : Runs.run ServerSystem.step (serverRun pool) actions = some s) :
    s.net.answered.Nodup ∧
      (∀ conn ticket, (conn, .served ticket) ∈ s.net.replies → s.sent[ticket]? = some conn) ∧
      (∀ conn, (conn, .queueFull) ∈ s.net.replies → conn ∉ s.sent) ∧
      (∀ fd fd' conn, s.net.table fd = some conn → s.net.table fd' = some conn → fd = fd') ∧
      ∀ fd conn, s.net.table fd = some conn → (∃ p, s.stage.holds = some (fd, p)) ∨
        ∃ job, job.body = fd ∧ s.sent[job.ticket]? = some conn ∧
          (s.pool.Queued job ∨ ∃ slot, (s.pool.worker slot).job = some job ∧ s.call slot ≠ .closed) := by
  have hok := (ServerOk.start hcreate).run hrun
  exact ⟨hok.net.nodup, hok.served, hok.refused, hok.net.unique, fun fd conn => hok.owner⟩

/-- The second connection gets the number of the first one, whose call has not returned; the third
one gets 503. -/
def reuseRun : List ServerAction :=
  [.pool (.setQueueMax 1), .test, .accept (.client 5), .submit 0 none, .pool (.look 0),
    .pool (.start 0), .reply 0, .close 0, .test, .accept (.client 5), .submit 1 none, .test,
    .accept (.client 6), .submit 2 none, .refuse, .closeRefused, .pool (.look 1), .pool (.start 1),
    .reply 1]

theorem server_run_replies_two : ∃ pool s, threadpoolCreate (fun _ => true) true 2 = some pool ∧
    Runs.run ServerSystem.step (serverRun pool) reuseRun = some s ∧
    s.net.replies = [(0, .served 0), (2, .queueFull), (1, .served 1)] ∧ s.sent[0]? = some 0 ∧
    s.sent[1]? = some 1 ∧ 2 ∉ s.sent := by
  have hall : ((threadpoolCreate (fun _ => true) true 2).bind fun pool =>
      (Runs.run ServerSystem.step (serverRun pool) reuseRun).map fun s => s.net.replies)
      = some [(0, .served 0), (2, .queueFull), (1, .served 1)] := by decide +kernel
  obtain ⟨pool, hcreate, hmap⟩ := Option.bind_eq_some_iff.mp hall
  obtain ⟨s, hrun, hreplies⟩ := Option.map_eq_some_iff.mp hmap
  obtain ⟨-, hserved, hrefused, -⟩ := server_run_replies hcreate hrun
  exact ⟨pool, s, hcreate, hrun, hreplies, hserved 0 0 (by simp [hreplies]),
    hserved 1 1 (by simp [hreplies]), hrefused 2 (by simp [hreplies])⟩

/-- **When `server_run` returns and `threadpool_shutdown_graceful` has returned 0, each connection
that was accepted has one reply, and no descriptor is open.** -/
theorem server_run_drained (hcreate : threadpoolCreate creates monitorCreated n = some pool)
    (hrun : Runs.run ServerSystem.step (serverRun pool) actions = some s)
    (hreturned : s.stage = .returned) (hdrained : s.pool.closer = .returned (.graceful false)) :
    s.net.answered.Perm (List.range s.net.arrived) ∧ ∀ fd, s.net.table fd = none := by
  have hok := (ServerOk.start hcreate).run hrun
  obtain ⟨hhead, hactive⟩ := hok.pool.drained (by rw [hdrained]; rfl)
  exact hok.all_answered (hok.pool.jobs.completed_perm hhead hactive) (by rw [hreturned]; rfl)

/-- The calls return, and `SIGINT` comes. -/
def stopRun : List ServerAction :=
  reuseRun ++ [.close 1, .pool (.return 0), .serverShutdown, .test, .stop, .pool (.return 1),
    .pool (.finish 1), .pool .close, .pool (.sample fun _ => true), .pool .close, .pool .close,
    .pool (.finish 0), .pool .close, .pool .close, .pool .close, .pool (.look 0), .pool (.look 1)] ++
    List.replicate 65 (.pool .close) ++ [.drained]

theorem server_run_drained_two : ∃ pool s, threadpoolCreate (fun _ => true) true 2 = some pool ∧
    Runs.run ServerSystem.step (serverRun pool) stopRun = some s ∧
    s.net.answered.Perm (List.range 3) ∧ ∀ fd, s.net.table fd = none := by
  have hall : ((threadpoolCreate (fun _ => true) true 2).bind fun pool =>
      (Runs.run ServerSystem.step (serverRun pool) stopRun).map fun s =>
        (s.stage, s.pool.closer, s.net.arrived))
      = some (.returned, .returned (.graceful false), 3) := by decide +kernel
  obtain ⟨pool, hcreate, hmap⟩ := Option.bind_eq_some_iff.mp hall
  obtain ⟨s, hrun, hs⟩ := Option.map_eq_some_iff.mp hmap
  obtain ⟨hstage, hlast⟩ := Prod.mk.inj hs
  obtain ⟨hcloser, harrived⟩ := Prod.mk.inj hlast
  obtain ⟨hanswered, hclosed⟩ := server_run_drained hcreate hrun hstage hcloser
  exact ⟨pool, s, hcreate, hrun, harrived ▸ hanswered, hclosed⟩

end Results

end MiniSql

import MiniSql.Threadpool.Runs

/-!
# What the monitor does over time

The monitor samples the utilisation once a second and counts how often in a row it was high or low.
Its counters stand for the latest samples that were evaluated, whatever the pool does between two
ticks, as long as nobody calls `threadpool_resize`.

## Main definitions

* `Counters` — what the monitor decides on, besides the utilisation.
* `Sampled` — the policy: what an evaluated sample does to the counters.
* `Ticks` — the ticks of a monitor, with any change of the rest of the pool between them.
* `TickOk` — what the history says about the latest tick.

## Main results

* `sampled_monitorSample` — `threadpool_monitor_main` follows the policy.
* `ticks_run` — the samples in a run of the pool without `threadpool_resize` are such ticks.
* `monitor_tickOk` — when and how far the monitor resizes the pool.
-/

namespace MiniSql

/-- The numbers that the monitor keeps, with the size of the pool. -/
structure Counters where
  nWorkers : ℤ
  floorWorkers : ℤ
  highConsecutive : ℤ
  lowConsecutive : ℤ
  skipSamples : ℤ

/-- What a sample that is evaluated does to the counters. -/
inductive Sampled (util : ℤ) (c : Counters) : Counters → Prop
  | expands (n : ℤ) (hhigh : tpHighWaterPct ≤ util)
      (hrow : tpHighConsecutive ≤ c.highConsecutive + 1) (hle : c.nWorkers ≤ n)
      (hstep : n ≤ c.nWorkers + tpStep) (hmax : n ≤ tpSoftMax) :
      Sampled util c ⟨n, c.floorWorkers, 0, 0, tpHysteresisSamples⟩
  | high (hhigh : tpHighWaterPct ≤ util)
      (hwait : ¬ (tpHighConsecutive ≤ c.highConsecutive + 1 ∧ c.nWorkers < tpSoftMax)) :
      Sampled util c { c with highConsecutive := c.highConsecutive + 1, lowConsecutive := 0 }
  | shrinks (n : ℤ) (hlow : util ≤ tpLowWaterPct)
      (hrow : tpLowConsecutive ≤ c.lowConsecutive + 1) (hle : n ≤ c.nWorkers)
      (hstep : c.nWorkers - tpStep ≤ n) (hmin : c.floorWorkers ≤ n) :
      Sampled util c ⟨n, c.floorWorkers, 0, 0, tpHysteresisSamples⟩
  | low (hlow : util ≤ tpLowWaterPct)
      (hwait : ¬ (tpLowConsecutive ≤ c.lowConsecutive + 1 ∧ c.floorWorkers < c.nWorkers)) :
      Sampled util c { c with lowConsecutive := c.lowConsecutive + 1, highConsecutive := 0 }
  | middle (hhigh : util < tpHighWaterPct) (hlow : tpLowWaterPct < util) :
      Sampled util c { c with highConsecutive := 0, lowConsecutive := 0 }

/-- What the sample says about the size of the pool. -/
theorem Sampled.resized {util : ℤ} {c c' : Counters} (h : Sampled util c c') :
    (c.nWorkers < c'.nWorkers → tpHighWaterPct ≤ util ∧ tpHighConsecutive ≤ c.highConsecutive + 1) ∧
      (c'.nWorkers < c.nWorkers → util ≤ tpLowWaterPct ∧ tpLowConsecutive ≤ c.lowConsecutive + 1) ∧
      (c.nWorkers - tpStep ≤ c'.nWorkers ∧ c'.nWorkers ≤ c.nWorkers + tpStep) ∧
      (c'.nWorkers ≠ c.nWorkers → c'.skipSamples = tpHysteresisSamples) := by
  have hstep₄ : (0 : ℤ) ≤ tpStep := by decide
  have hsame : c.nWorkers - tpStep ≤ c.nWorkers ∧ c.nWorkers ≤ c.nWorkers + tpStep := by omega
  cases h with
  | expands n hhigh hrow hle hstep hmax =>
    exact ⟨fun _ => ⟨hhigh, hrow⟩, fun hless => absurd hle (not_le.mpr hless),
      ⟨hsame.1.trans hle, hstep⟩, fun _ => rfl⟩
  | shrinks n hlow hrow hle hstep hmin =>
    exact ⟨fun hless => absurd hle (not_le.mpr hless), fun _ => ⟨hlow, hrow⟩,
      ⟨hstep, hle.trans hsame.2⟩, fun _ => rfl⟩
  | high | low | middle =>
    exact ⟨fun hless => absurd hless (lt_irrefl _), fun hless => absurd hless (lt_irrefl _), hsame,
      fun hne => absurd rfl hne⟩

variable {β : Type*}

namespace PoolSystem

variable {s s' : PoolSystem β}

def counters (s : PoolSystem β) : Counters :=
  ⟨s.tp.nWorkers, s.tp.floorWorkers, s.tp.highConsecutive, s.tp.lowConsecutive, s.tp.skipSamples⟩

/-- The utilisation in percent, as the monitor computes it. -/
def utilPct (s : PoolSystem β) : ℤ :=
  if 0 < s.tp.nWorkers then (s.tp.activeWorkers * 100).tdiv s.tp.nWorkers else 0

/-- The tick is neither the last one nor skipped. -/
def evaluates (s : PoolSystem β) : Bool :=
  !(s.tp.monitorShouldExit || s.tp.shutdown) && decide (s.tp.skipSamples ≤ 0)

theorem evaluates_iff :
    s.evaluates = true ↔
      ¬ (s.tp.monitorShouldExit = true ∨ s.tp.shutdown = true) ∧ ¬ 0 < s.tp.skipSamples := by
  simp [evaluates]

/-! ## One sample -/

/-- The number of threads that the loop counts is not more than asked for, and nothing else that the
monitor keeps is changed. -/
theorem expandLoop_counters (creates : Slot → Bool) (newN : ℤ) (slots : List Slot) (added : ℤ)
    (s : PoolSystem β) (hle : s.tp.nWorkers + added ≤ newN) :
    added ≤ (expandLoop creates newN slots added s).1 ∧
      s.tp.nWorkers + (expandLoop creates newN slots added s).1 ≤ newN ∧
      (expandLoop creates newN slots added s).2.counters = s.counters := by
  induction slots generalizing added s with
  | nil => exact ⟨le_rfl, hle, rfl⟩
  | cons slot slots ih =>
    rw [expandLoop]
    by_cases hfull : newN ≤ s.tp.nWorkers + added
    · rw [if_pos hfull]
      exact ⟨le_rfl, hle, rfl⟩
    rw [if_neg hfull]
    by_cases halive : s.tp.workerAlive slot = true
    · rw [if_pos halive]
      exact ih added s hle
    rw [if_neg halive]
    by_cases hcreates : creates slot = true
    · rw [if_pos hcreates]
      have hless : (s.spawn slot).tp.nWorkers + (added + 1) ≤ newN := by
        have hn : (s.spawn slot).tp.nWorkers = s.tp.nWorkers := rfl
        omega
      obtain ⟨hadded, hmax, hcounters⟩ := ih (added + 1) (s.spawn slot) hless
      exact ⟨by omega, hmax, hcounters⟩
    · rw [if_neg hcreates]
      exact ⟨le_rfl, hle, rfl⟩

/-- The pool has as many workers more as `threadpool_expand_locked` returns. -/
theorem threadpoolExpandLocked_counters (creates : Slot → Bool) (s : PoolSystem β) (newN : ℤ) :
    0 ≤ (threadpoolExpandLocked creates s newN).1 ∧
      s.tp.nWorkers + (threadpoolExpandLocked creates s newN).1 ≤ max s.tp.nWorkers newN ∧
      (threadpoolExpandLocked creates s newN).2.counters =
        { s.counters with nWorkers := s.tp.nWorkers + (threadpoolExpandLocked creates s newN).1 } := by
  unfold threadpoolExpandLocked
  dsimp only
  generalize hmax : (if (tpAbsMax : ℤ) < newN then (tpAbsMax : ℤ) else newN) = newN'
  have hle : newN' ≤ newN := by
    rw [← hmax]
    split <;> omega
  by_cases hdone : newN' ≤ s.tp.nWorkers
  · rw [if_pos hdone]
    dsimp only
    rw [add_zero]
    exact ⟨le_rfl, le_max_left _ _, rfl⟩
  · rw [if_neg hdone]
    obtain ⟨hadded, hbound, hcounters⟩ :=
      expandLoop_counters creates newN' (List.finRange tpAbsMax) 0 s (by omega)
    rcases hloop : expandLoop creates newN' (List.finRange tpAbsMax) 0 s with ⟨added, t⟩
    rw [hloop] at hadded hbound hcounters
    dsimp only at hadded hbound hcounters ⊢
    obtain ⟨hn, hfloor, hhigh, hlow, hskip⟩ := Counters.mk.inj hcounters
    refine ⟨hadded, le_max_of_le_right (hbound.trans hle), ?_⟩
    rw [counters, counters]
    dsimp only
    rw [hn, hfloor, hhigh, hlow, hskip]

theorem threadpoolMarkRetireLocked_counters (s : PoolSystem β) (newN outCap : ℤ) :
    ∃ n, n ≤ s.tp.nWorkers ∧ min s.tp.nWorkers (max newN s.tp.floorWorkers) ≤ n ∧
      (threadpoolMarkRetireLocked s newN outCap).2.counters = { s.counters with nWorkers := n } := by
  unfold threadpoolMarkRetireLocked
  dsimp only
  generalize hmin : (if newN < s.tp.floorWorkers then s.tp.floorWorkers else newN) = newN'
  have hle : max newN s.tp.floorWorkers = newN' := by
    rw [← hmin]
    split <;> omega
  rw [hle]
  by_cases hdone : s.tp.nWorkers ≤ newN'
  · rw [if_pos hdone]
    exact ⟨s.tp.nWorkers, le_rfl, min_le_left _ _, rfl⟩
  · rw [if_neg hdone]
    obtain ⟨new, heq, -, -, hnew⟩ :=
      markLoop_eq (s.tp.nWorkers - newN') outCap (List.finRange tpAbsMax).reverse [] s.tp
    rw [heq]
    have hmarked : (new.length : ℤ) ≤ s.tp.nWorkers - newN' := by
      rcases hnew with rfl | hnew
      · rw [List.length_nil]
        omega
      · rw [List.length_nil, zero_add] at hnew
        exact hnew
    refine ⟨s.tp.nWorkers - new.length, by omega, ?_, rfl⟩
    exact (min_le_right _ _).trans (by omega)

/-- **A tick that is evaluated follows the policy.** -/
theorem sampled_monitorSample (h : s.evaluates = true) (creates : Slot → Bool) :
    Sampled s.utilPct s.counters (s.monitorSample creates).counters := by
  obtain ⟨hgoes, hskip⟩ := evaluates_iff.mp h
  unfold monitorSample
  rw [if_neg hgoes, if_neg hskip]
  dsimp only
  rw [show (if 0 < s.tp.nWorkers then (s.tp.activeWorkers * 100).tdiv s.tp.nWorkers else 0) =
    s.utilPct from rfl]
  by_cases hhigh : tpHighWaterPct ≤ s.utilPct
  · rw [if_pos hhigh]
    by_cases hexpand : tpHighConsecutive ≤ s.tp.highConsecutive + 1 ∧ s.tp.nWorkers < tpSoftMax
    · rw [if_pos hexpand]
      generalize htarget : (if tpSoftMax < s.tp.nWorkers + tpStep then tpSoftMax
        else s.tp.nWorkers + tpStep) = target
      have hstep : target ≤ s.tp.nWorkers + tpStep ∧ target ≤ tpSoftMax := by
        rw [← htarget]
        split <;> omega
      obtain ⟨hadded, hmax, hcounters⟩ := threadpoolExpandLocked_counters creates { s with
        tp := { s.tp with highConsecutive := s.tp.highConsecutive + 1, lowConsecutive := 0 } } target
      rcases hpool : threadpoolExpandLocked creates { s with
        tp := { s.tp with highConsecutive := s.tp.highConsecutive + 1, lowConsecutive := 0 } } target
        with ⟨added, t⟩
      rw [hpool] at hadded hmax hcounters
      obtain ⟨hn, hfloor, -, hlow, -⟩ := Counters.mk.inj hcounters
      dsimp only at hadded hmax hn hfloor hlow
      have hbounds : s.tp.nWorkers ≤ s.tp.nWorkers + added ∧
          s.tp.nWorkers + added ≤ s.tp.nWorkers + tpStep ∧ s.tp.nWorkers + added ≤ tpSoftMax := by
        have hstep₄ : (0 : ℤ) ≤ tpStep := by decide
        omega
      rw [counters]
      dsimp only
      rw [hn, hfloor, hlow]
      exact .expands _ hhigh hexpand.1 hbounds.1 hbounds.2.1 hbounds.2.2
    · rw [if_neg hexpand]
      exact .high hhigh hexpand
  rw [if_neg hhigh]
  by_cases hlow : s.utilPct ≤ tpLowWaterPct
  · rw [if_pos hlow]
    by_cases hretire : tpLowConsecutive ≤ s.tp.lowConsecutive + 1 ∧ s.tp.floorWorkers < s.tp.nWorkers
    · rw [if_pos hretire]
      generalize htarget : (if s.tp.nWorkers - tpStep < s.tp.floorWorkers then s.tp.floorWorkers
        else s.tp.nWorkers - tpStep) = target
      have hstep : s.tp.nWorkers - tpStep ≤ target ∧ s.tp.floorWorkers ≤ target := by
        rw [← htarget]
        split <;> omega
      obtain ⟨n, hle, hmin, hcounters⟩ := threadpoolMarkRetireLocked_counters { s with
        tp := { s.tp with lowConsecutive := s.tp.lowConsecutive + 1, highConsecutive := 0 } }
        target tpStep
      obtain ⟨hn, hfloor, hhigh₀, -, -⟩ := Counters.mk.inj hcounters
      have hbounds : s.tp.nWorkers - tpStep ≤ n ∧ s.tp.floorWorkers ≤ n := by
        have hstep₄ : (0 : ℤ) ≤ tpStep := by decide
        dsimp only at hmin
        omega
      have hresult := @Sampled.shrinks s.utilPct s.counters n hlow hretire.1 hle hbounds.1 hbounds.2
      rw [counters]
      dsimp only [joinRetired] at hn hfloor hhigh₀ ⊢
      rw [hn, hfloor, hhigh₀]
      exact hresult
    · rw [if_neg hretire]
      exact .low hlow hretire
  · rw [if_neg hlow]
    exact .middle (not_le.mp hhigh) (not_le.mp hlow)

/-- A tick that is not evaluated changes nothing but the number of ticks to skip, or ends the
monitor. -/
theorem monitorSample_idle (h : s.evaluates = false) (creates : Slot → Bool) :
    s.monitorSample creates = { s with monitorExited := true } ∨
      0 < s.tp.skipSamples ∧
        s.monitorSample creates = { s with tp := { s.tp with skipSamples := s.tp.skipSamples - 1 } } := by
  unfold monitorSample
  by_cases hexit : s.tp.monitorShouldExit = true ∨ s.tp.shutdown = true
  · rw [if_pos hexit]
    exact Or.inl rfl
  rw [if_neg hexit]
  by_cases hskip : 0 < s.tp.skipSamples
  · rw [if_pos hskip]
    exact Or.inr ⟨hskip, rfl⟩
  · rw [evaluates_iff.mpr ⟨hexit, hskip⟩] at h
    exact absurd h (by simp)

/-- A step that is neither a resize nor a tick of the monitor keeps its numbers. -/
theorem counters_act {a : Action β} (hresize : ∀ id creates newN, a ≠ .resize id creates newN)
    (hsample : ∀ creates, a ≠ .sample creates) (h : s.act a = some s') :
    s'.counters = s.counters := by
  have hsignal : ∀ {t t' : PoolSystem β} {woken : Option Slot}, t.signalNonempty woken = some t' →
      t'.counters = t.counters := by
    intro t t' woken hsignal
    rcases signalNonempty_cases hsignal with ⟨slot, -, rfl⟩ | ⟨-, rfl⟩ <;> rfl
  cases a with
  | submit body addr woken =>
    obtain ⟨⟨accepted, t⟩, hsubmit, rfl⟩ := Option.map_eq_some_iff.mp h
    unfold threadpoolSubmit at hsubmit
    split at hsubmit
    · obtain ⟨-, rfl⟩ := Prod.mk.inj (Option.some.inj hsubmit)
      rfl
    split at hsubmit
    · obtain ⟨-, rfl⟩ := Prod.mk.inj (Option.some.inj hsubmit)
      rfl
    split at hsubmit
    · exact absurd hsubmit (by simp)
    · obtain ⟨t', hwoken, ht⟩ := Option.map_eq_some_iff.mp hsubmit
      obtain ⟨-, rfl⟩ := Prod.mk.inj ht
      exact (hsignal hwoken).trans rfl
  | look slot =>
    obtain ⟨-, hlook⟩ := workerLook_cases h
    rcases hlook with ⟨-, -, -, rfl⟩ | ⟨-, rfl⟩ | ⟨-, -, job, queue, -, rfl⟩
    · rfl
    · rfl
    · rw [workerTake_eq]
      rfl
  | start slot =>
    obtain ⟨job, -, rfl⟩ := workerStart_cases h
    rfl
  | «return» slot =>
    obtain ⟨job, -, rfl⟩ := workerReturn_cases h
    rfl
  | finish slot =>
    obtain ⟨-, rfl⟩ := workerFinish_cases h
    rw [workerDone_eq]
    rfl
  | wake slot =>
    change s.workerWake slot = some s' at h
    unfold workerWake at h
    split at h
    · obtain rfl := Option.some.inj h
      rfl
    · exact absurd h (by simp)
  | resize id creates newN => exact absurd rfl (hresize id creates newN)
  | sample creates => exact absurd rfl (hsample creates)
  | join j =>
    obtain ⟨slot, slots, -, -, rfl⟩ := joinReturns_cases h
    rfl
  | clear j =>
    obtain ⟨slot, slots, -, rfl⟩ := clearRetired_cases h
    rfl
  | setQueueMax max =>
    obtain rfl := Option.some.inj h
    unfold threadpoolSetQueueMax
    split <;> rfl
  | shutdown =>
    change (if s.closer = .idle then _ else none) = some s' at h
    split at h
    · obtain rfl := Option.some.inj h
      rfl
    · exact absurd h (by simp)
  | shutdownGraceful =>
    change (if s.closer = .idle then _ else none) = some s' at h
    split at h
    · obtain rfl := Option.some.inj h
      rfl
    · exact absurd h (by simp)
  | close =>
    change s.closerStep = some s' at h
    unfold closerStep at h
    repeat' split at h
    all_goals first
      | obtain rfl := Option.some.inj h
        rfl
      | exact absurd h (by simp)
  | timeout =>
    change s.drainTimeout = some s' at h
    unfold drainTimeout at h
    split at h
    · obtain rfl := Option.some.inj h
      rfl
    · exact absurd h (by simp)

end PoolSystem

/-! ## The history of the monitor -/

variable (β) in
/-- A tick of the monitor: the pool before it, and the slots for which a thread can be made. -/
structure Tick where
  before : PoolSystem β
  creates : Slot → Bool

/-- The pool behind the tick. -/
def Tick.after (t : Tick β) : PoolSystem β := t.before.monitorSample t.creates

/-- The ticks of a monitor, the latest one first, and the pool at some time before the next one. What
the monitor does not keep itself may be anything then. -/
inductive Ticks (s₀ : PoolSystem β) : List (Tick β) → PoolSystem β → Prop
  | start {s : PoolSystem β} (hsame : s.counters = s₀.counters) : Ticks s₀ [] s
  | tick {t : Tick β} {ticks : List (Tick β)} {s : PoolSystem β} (h : Ticks s₀ ticks t.before)
      (hsame : s.counters = t.after.counters) : Ticks s₀ (t :: ticks) s

theorem Ticks.later {s₀ s s' : PoolSystem β} {ticks : List (Tick β)} (h : Ticks s₀ ticks s)
    (hsame : s'.counters = s.counters) : Ticks s₀ ticks s' := by
  cases h with
  | start hstart => exact .start (hsame.trans hstart)
  | tick hbefore hafter => exact .tick hbefore (hsame.trans hafter)

/-- The samples that were evaluated, the latest one first. -/
def samples : List (Tick β) → List ℤ
  | [] => []
  | t :: ticks => if t.before.evaluates then t.before.utilPct :: samples ticks else samples ticks

/-- There are `k` samples that were evaluated, and the last `k` of them meet the condition. -/
def LastSamples (k : ℕ) (p : ℤ → Prop) (ticks : List (Tick β)) : Prop :=
  k ≤ (samples ticks).length ∧ ∀ u ∈ (samples ticks).take k, p u

/-- The latest tick of a history. -/
structure TickOk (floor : ℤ) (t : Tick β) (older : List (Tick β)) : Prop where
  expands : t.before.tp.nWorkers < t.after.tp.nWorkers →
    LastSamples 3 (fun util => 80 ≤ util) (t :: older)
  shrinks : t.after.tp.nWorkers < t.before.tp.nWorkers →
    LastSamples 30 (fun util => util ≤ 30) (t :: older)
  rests : ∀ u ∈ older.take 2, u.after.tp.nWorkers ≠ u.before.tp.nWorkers →
    t.before.evaluates = false ∧
      (t.after = { t.before with monitorExited := true } ∨
        t.after = { t.before with
          tp := { t.before.tp with skipSamples := t.before.tp.skipSamples - 1 } })
  step : t.before.tp.nWorkers - 4 ≤ t.after.tp.nWorkers ∧ t.after.tp.nWorkers ≤ t.before.tp.nWorkers + 4
  bounds : floor ≤ t.after.tp.nWorkers ∧ t.after.tp.nWorkers ≤ max floor 16

namespace LastSamples

variable {k : ℕ} {p : ℤ → Prop} {t : Tick β} {ticks : List (Tick β)}

theorem zero (p : ℤ → Prop) (ticks : List (Tick β)) : LastSamples 0 p ticks :=
  ⟨Nat.zero_le _, by simp⟩

theorem mono (h : LastSamples k p ticks) {k' : ℕ} (hle : k' ≤ k) : LastSamples k' p ticks :=
  ⟨hle.trans h.1, fun u hu => h.2 u ((List.take_sublist_take_left hle).subset hu)⟩

theorem skip (h : LastSamples k p ticks) (hskip : t.before.evaluates = false) :
    LastSamples k p (t :: ticks) := by
  have hsame : samples (t :: ticks) = samples ticks := by simp [samples, hskip]
  unfold LastSamples
  rw [hsame]
  exact h

theorem succ (h : LastSamples k p ticks) (heval : t.before.evaluates = true)
    (hp : p t.before.utilPct) : LastSamples (k + 1) p (t :: ticks) := by
  have hcons : samples (t :: ticks) = t.before.utilPct :: samples ticks := by simp [samples, heval]
  unfold LastSamples
  rw [hcons, List.length_cons, List.take_succ_cons]
  refine ⟨Nat.succ_le_succ h.1, fun u hu => ?_⟩
  rcases List.mem_cons.mp hu with rfl | hu
  · exact hp
  · exact h.2 u hu

end LastSamples

/-- The counters count the latest samples, and the size of the pool keeps the bounds. -/
structure MonitorInv (floor : ℤ) (c : Counters) (ticks : List (Tick β)) : Prop where
  floor_eq : c.floorWorkers = floor
  bounds : floor ≤ c.nWorkers ∧ c.nWorkers ≤ max floor tpSoftMax
  high_nonneg : 0 ≤ c.highConsecutive
  high : LastSamples c.highConsecutive.toNat (fun util => tpHighWaterPct ≤ util) ticks
  low_nonneg : 0 ≤ c.lowConsecutive
  low : LastSamples c.lowConsecutive.toNat (fun util => util ≤ tpLowWaterPct) ticks

namespace MonitorInv

variable {floor : ℤ} {c c' : Counters} {t : Tick β} {ticks : List (Tick β)}

/-- A sample that is evaluated keeps the counters true. -/
theorem sampled (h : MonitorInv floor c ticks) (heval : t.before.evaluates = true)
    (hstep : Sampled t.before.utilPct c c') : MonitorInv floor c' (t :: ticks) := by
  have hzero := fun p => LastSamples.zero (β := β) p (t :: ticks)
  have hnext : ∀ {k : ℤ}, 0 ≤ k → (k + 1).toNat = k.toNat + 1 := by
    intro k hk
    omega
  cases hstep with
  | expands n hhigh hrow hle hstep hmax =>
    have hbounds := h.bounds
    exact ⟨h.floor_eq, ⟨hbounds.1.trans hle, le_max_of_le_right hmax⟩, le_rfl, hzero _, le_rfl, hzero _⟩
  | high hhigh =>
    refine ⟨h.floor_eq, h.bounds, Int.le_add_one h.high_nonneg, ?_, le_rfl, hzero _⟩
    dsimp only
    rw [hnext h.high_nonneg]
    exact h.high.succ heval hhigh
  | shrinks n hlow hrow hle hstep hmin =>
    have hbounds := h.bounds
    rw [h.floor_eq] at hmin ⊢
    exact ⟨rfl, ⟨hmin, hle.trans hbounds.2⟩, le_rfl, hzero _, le_rfl, hzero _⟩
  | low hlow =>
    refine ⟨h.floor_eq, h.bounds, le_rfl, hzero _, Int.le_add_one h.low_nonneg, ?_⟩
    dsimp only
    rw [hnext h.low_nonneg]
    exact h.low.succ heval hlow
  | middle => exact ⟨h.floor_eq, h.bounds, le_rfl, hzero _, le_rfl, hzero _⟩

/-- So does any tick. -/
theorem tick (h : MonitorInv floor t.before.counters ticks) :
    MonitorInv floor t.after.counters (t :: ticks) := by
  cases heval : t.before.evaluates with
  | true => exact h.sampled heval (PoolSystem.sampled_monitorSample heval t.creates)
  | false =>
    have hhigh := h.high.skip heval
    have hlow := h.low.skip heval
    unfold Tick.after
    rcases PoolSystem.monitorSample_idle heval t.creates with hidle | ⟨-, hidle⟩
    · rw [hidle]
      exact ⟨h.floor_eq, h.bounds, h.high_nonneg, hhigh, h.low_nonneg, hlow⟩
    · rw [hidle]
      exact ⟨h.floor_eq, h.bounds, h.high_nonneg, hhigh, h.low_nonneg, hlow⟩

end MonitorInv

section Results

variable {creates : Slot → Bool} {monitorCreated : Bool} {n : ℤ} {s₀ s : PoolSystem β}

/-- A new pool has as many workers as its floor, and the counters are zero. -/
theorem counters_create (hcreate : threadpoolCreate creates monitorCreated n = some s₀) :
    s₀.counters = ⟨n, n, 0, 0, 0⟩ := by
  unfold threadpoolCreate at hcreate
  split at hcreate
  · exact absurd hcreate (by simp)
  · obtain ⟨-, -, hcounters⟩ := PoolSystem.threadpoolExpandLocked_counters creates
      (threadpoolInit n : PoolSystem β) n
    rcases hexpand : PoolSystem.threadpoolExpandLocked creates (threadpoolInit n : PoolSystem β) n
      with ⟨added, t⟩
    rw [hexpand] at hcreate hcounters
    dsimp only at hcreate
    split at hcreate
    · exact absurd hcreate (by simp)
    · rename_i hok
      have hall : added = n := not_ne_iff.mp (not_or.mp hok).1
      rw [← Option.some.inj hcreate]
      change t.counters = _
      rw [hcounters, hall]
      change Counters.mk (0 + n) n 0 0 0 = _
      rw [zero_add]

/-- The counters are true at any time. -/
theorem monitorInv_ticks (hcreate : threadpoolCreate creates monitorCreated n = some s₀)
    {ticks : List (Tick β)} (h : Ticks s₀ ticks s) : MonitorInv n s.counters ticks := by
  induction h with
  | start hsame =>
    rw [hsame, counters_create hcreate]
    exact ⟨rfl, ⟨le_rfl, le_max_left _ _⟩, le_rfl, .zero _ _, le_rfl, .zero _ _⟩
  | tick _ hsame ih =>
    rw [hsame]
    exact ih.tick

/-- Only a tick that is evaluated resizes the pool. -/
theorem Tick.evaluates_of_resized {t : Tick β} (h : t.after.tp.nWorkers ≠ t.before.tp.nWorkers) :
    t.before.evaluates = true := by
  cases heval : t.before.evaluates with
  | true => rfl
  | false =>
    unfold Tick.after at h
    rcases PoolSystem.monitorSample_idle heval t.creates with hidle | ⟨-, hidle⟩
    · rw [hidle] at h
      exact absurd rfl h
    · rw [hidle] at h
      exact absurd rfl h

/-- The two ticks behind a resize are to be skipped. -/
theorem Tick.skipSamples_of_resized {t : Tick β} (h : t.after.tp.nWorkers ≠ t.before.tp.nWorkers) :
    t.after.tp.skipSamples = 2 :=
  (PoolSystem.sampled_monitorSample (t.evaluates_of_resized h) t.creates).resized.2.2.2 h

/-- A tick skips one of those that are to be skipped. -/
theorem Tick.skips {t : Tick β} (h : 0 < t.before.tp.skipSamples) :
    t.before.evaluates = false ∧ t.before.tp.skipSamples - 1 ≤ t.after.tp.skipSamples := by
  have heval : t.before.evaluates = false := by
    rw [← Bool.not_eq_true, PoolSystem.evaluates_iff]
    exact fun hevaluates => hevaluates.2 h
  unfold Tick.after
  refine ⟨heval, ?_⟩
  rcases PoolSystem.monitorSample_idle heval t.creates with hidle | ⟨-, hidle⟩
  · rw [hidle]
    exact Int.sub_le_self _ (by decide)
  · rw [hidle]

/-- The number of ticks to skip is not changed between two ticks. -/
theorem Ticks.skipSamples_eq {u : Tick β} {ticks : List (Tick β)} (h : Ticks s₀ (u :: ticks) s) :
    s.tp.skipSamples = u.after.tp.skipSamples := by
  cases h with
  | tick _ hsame => exact congrArg Counters.skipSamples hsame

/-- One of the two ticks before has resized the pool. -/
theorem Ticks.skipSamples_pos {older : List (Tick β)} (h : Ticks s₀ older s) {u : Tick β}
    (hu : u ∈ older.take 2) (hresized : u.after.tp.nWorkers ≠ u.before.tp.nWorkers) :
    0 < s.tp.skipSamples := by
  have hskip := u.skipSamples_of_resized hresized
  cases h with
  | start => exact absurd hu (by simp)
  | @tick v ticks _ hbefore hsame =>
    have hlast : s.tp.skipSamples = v.after.tp.skipSamples := congrArg Counters.skipSamples hsame
    rw [hlast]
    rw [List.take_succ_cons, List.mem_cons] at hu
    rcases hu with rfl | hu
    · omega
    · cases ticks with
      | nil => exact absurd hu (by simp)
      | cons w ticks =>
        obtain rfl : u = w := by simpa using hu
        have hrest : v.before.tp.skipSamples = u.after.tp.skipSamples := hbefore.skipSamples_eq
        have hless := (v.skips (by omega)).2
        omega

/-- **The monitor of a new pool, over all its ticks, whatever the utilisation is: what the latest tick
does, and what the samples have been.** -/
theorem monitor_tickOk (hcreate : threadpoolCreate creates monitorCreated n = some s₀) {t : Tick β}
    {older : List (Tick β)} (h : Ticks s₀ (t :: older) s) : TickOk n t older := by
  cases h with
  | tick hbefore _ =>
    have hinv := monitorInv_ticks hcreate hbefore
    have hbounds := hinv.tick.bounds
    have hcount : ∀ {k : ℤ} {m : ℕ}, (m : ℤ) ≤ k + 1 → m ≤ k.toNat + 1 := by
      intro k m hle
      omega
    refine ⟨fun hmore => ?_, fun hless => ?_, fun u hu hresized => ?_, ?_, hbounds⟩
    · have heval := t.evaluates_of_resized hmore.ne'
      have hstep := (PoolSystem.sampled_monitorSample heval t.creates).resized
      obtain ⟨hhigh, hrow⟩ := hstep.1 hmore
      exact (hinv.high.succ heval hhigh).mono (hcount hrow)
    · have heval := t.evaluates_of_resized hless.ne
      have hstep := (PoolSystem.sampled_monitorSample heval t.creates).resized
      obtain ⟨hlow, hrow⟩ := hstep.2.1 hless
      exact (hinv.low.succ heval hlow).mono (hcount hrow)
    · have heval := (t.skips (hbefore.skipSamples_pos hu hresized)).1
      refine ⟨heval, ?_⟩
      rcases PoolSystem.monitorSample_idle heval t.creates with hidle | ⟨-, hidle⟩
      · exact Or.inl hidle
      · exact Or.inr hidle
    · by_cases hsame : t.after.tp.nWorkers = t.before.tp.nWorkers
      · rw [hsame]
        omega
      · have heval := t.evaluates_of_resized hsame
        exact (PoolSystem.sampled_monitorSample heval t.creates).resized.2.2.1

/-- All workers of a new pool are busy. -/
def busyTick (s : PoolSystem β) : Tick β := ⟨{ s with tp := { s.tp with activeWorkers := 4 } }, fun _ => true⟩

/-- The third tick at which the four workers are busy makes four more. -/
theorem monitor_tickOk_busy : ∃ (s₀ : PoolSystem Unit) (t : Tick Unit) (older : List (Tick Unit)),
    threadpoolCreate (fun _ => true) true 4 = some s₀ ∧ t.after.tp.nWorkers = 8 ∧ TickOk 4 t older := by
  have hall : (threadpoolCreate (fun _ => true) true 4).map
      (fun s₀ => (busyTick (busyTick (busyTick (β := Unit) s₀).after).after).after.tp.nWorkers)
      = some 8 := by decide +kernel
  obtain ⟨s₀, hcreate, hsize⟩ := Option.map_eq_some_iff.mp hall
  refine ⟨s₀, busyTick (busyTick (busyTick s₀).after).after,
    [busyTick (busyTick s₀).after, busyTick s₀], hcreate, hsize, ?_⟩
  exact monitor_tickOk hcreate (.tick (.tick (.tick (.start rfl) rfl) rfl) rfl)

/-! ## Runs of the pool -/

/-- The ticks of the monitor in a run, in front of those before it. -/
def ticksOf : PoolSystem β → List (PoolSystem.Action β) → List (Tick β) → List (Tick β)
  | _, [], ticks => ticks
  | s, a :: actions, ticks =>
    match s.step a with
    | none => ticks
    | some s' => ticksOf s' actions <|
      match a with
      | .sample creates => ⟨s, creates⟩ :: ticks
      | _ => ticks

/-- **The ticks in a run without `threadpool_resize` are a history of the monitor.** -/
theorem ticks_run {actions : List (PoolSystem.Action β)}
    (hresize : ∀ id creates newN, .resize id creates newN ∉ actions) {ticks : List (Tick β)}
    {s' : PoolSystem β} (h : Ticks s₀ ticks s) (hrun : Runs.run PoolSystem.step s actions = some s') :
    Ticks s₀ (ticksOf s actions ticks) s' := by
  induction actions generalizing s ticks with
  | nil =>
    obtain rfl : s = s' := by simpa [Runs.run] using hrun
    exact h
  | cons a actions ih =>
    obtain ⟨t, hstep, hrest⟩ := Runs.run_cons.mp hrun
    have hresize' : ∀ id creates newN, .resize id creates newN ∉ actions :=
      fun id creates newN hin => hresize id creates newN (List.mem_cons_of_mem _ hin)
    unfold ticksOf
    rw [hstep]
    unfold PoolSystem.step at hstep
    split at hstep
    · exact absurd hstep (by simp)
    cases a with
    | sample creates =>
      change (if _ then some (s.monitorSample creates) else none) = some t at hstep
      split at hstep
      · have ht : s.monitorSample creates = t := Option.some.inj hstep
        have hnext : t.counters = (Tick.mk s creates).after.counters := by
          rw [← ht]
          rfl
        exact ih hresize' (@Ticks.tick _ s₀ ⟨s, creates⟩ ticks t h hnext) hrest
      · exact absurd hstep (by simp)
    | resize id creates newN => exact absurd (List.mem_cons_self ..) (hresize id creates newN)
    | _ =>
      have hsame := PoolSystem.counters_act (by simp) (by simp) hstep
      exact ih hresize' (h.later hsame) hrest

end Results

end MiniSql

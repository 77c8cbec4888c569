import MiniSql.Threadpool.Monitor

/-!
# An idle pool gives its threads back

While the utilisation stays low, every thirty-second sample at the latest takes `TP_STEP` workers
away, until the pool is back at its floor. `threadpool_mark_retire_locked` then marks as many workers
as asked for, since as many stay as the pool counts.

## Main definitions

* `Tick.Idle` — a tick that finds the pool open and its utilisation low.
* `Counters.ticksToFloor` — after how many such ticks the pool is at its floor.

## Main results

* `Tick.counters_of_idle` — an idle tick does exactly what the policy says.
* `Counters.ticksToFloor_lowSampled` — so it is one less to wait for.
* `threadpool_idle_shrinks` — the pool is back at its floor in the end, in every run.
-/

namespace MiniSql

variable {β : Type*}

namespace PoolSystem

/-! ## How many workers are marked -/

/-- The loop marks as many of the slots as asked for, or all that stay. -/
theorem length_markLoop (nRetire outCap : ℤ) {slots : List Slot} (hnodup : slots.Nodup)
    (marked : List Slot) (tp : Threadpool β)
    (hmany : min nRetire outCap ≤ marked.length + (slots.countP fun slot =>
      tp.workerAlive slot && !tp.workerRetiring slot : ℕ))
    (hfew : (marked.length : ℤ) ≤ min nRetire outCap) :
    ((markLoop nRetire outCap slots marked tp).1.length : ℤ) = min nRetire outCap := by
  induction slots generalizing marked tp with
  | nil =>
    rw [List.countP_nil, Nat.cast_zero, add_zero] at hmany
    exact le_antisymm hfew hmany
  | cons slot slots ih =>
    obtain ⟨hnotin, hnodup⟩ := List.nodup_cons.mp hnodup
    unfold markLoop
    by_cases hmore : (marked.length : ℤ) < nRetire ∧ (marked.length : ℤ) < outCap
    · rw [if_pos hmore]
      by_cases hstays : tp.workerAlive slot = true ∧ tp.workerRetiring slot = false
      · rw [if_pos hstays]
        -- the mark is on a slot that the rest of the loop does not look at
        have hrest : (slots.countP fun i => tp.workerAlive i &&
            !Function.update tp.workerRetiring slot true i)
              = slots.countP fun i => tp.workerAlive i && !tp.workerRetiring i := by
          refine List.countP_congr fun i hi => ?_
          have hne : i ≠ slot := fun heq => hnotin (heq ▸ hi)
          rw [Function.update_of_ne hne]
        rw [List.countP_cons_of_pos (by simp [hstays.1, hstays.2])] at hmany
        refine ih hnodup (marked ++ [slot]) _ ?_ ?_
        · dsimp only
          rw [hrest, List.length_append, List.length_singleton]
          omega
        · rw [List.length_append, List.length_singleton]
          omega
      · rw [if_neg hstays]
        rw [List.countP_cons_of_neg (by simpa using hstays)] at hmany
        exact ih hnodup marked tp hmany hfew
    · rw [if_neg hmore]
      dsimp only
      omega

/-- The loop meets as many workers that stay as the pool counts. -/
theorem countP_stays {alive retiring : Slot → Bool} {worker : Slot → Worker β} {n : ℤ}
    (h : LiveOk alive retiring worker n) :
    (((List.finRange tpAbsMax).reverse.countP fun slot => alive slot && !retiring slot : ℕ) : ℤ) =
      n := by
  rw [h.count, List.countP_reverse, List.countP_eq_length_filter]
  have hnodup := (List.nodup_finRange tpAbsMax).filter fun slot => alive slot && !retiring slot
  rw [← List.toFinset_card_of_nodup hnodup]
  congr 2
  ext slot
  simp [stayingSlots]

/-- The pool gets as small as asked for. -/
theorem threadpoolMarkRetireLocked_all (s : PoolSystem β) (newN outCap : ℤ)
    (hlive : LiveOk s.tp.workerAlive s.tp.workerRetiring s.worker s.tp.nWorkers)
    (hfloor : s.tp.floorWorkers ≤ newN) (hpos : 0 ≤ newN) (hcap : s.tp.nWorkers - newN ≤ outCap) :
    (threadpoolMarkRetireLocked s newN outCap).2.counters =
      { s.counters with nWorkers := min s.tp.nWorkers newN } := by
  unfold threadpoolMarkRetireLocked
  dsimp only
  rw [if_neg (not_lt.mpr hfloor)]
  by_cases hdone : s.tp.nWorkers ≤ newN
  · rw [if_pos hdone, min_eq_left hdone]
    rfl
  · rw [if_neg hdone, min_eq_right (not_le.mp hdone).le]
    have hstay := countP_stays hlive
    have hlength := length_markLoop (s.tp.nWorkers - newN) outCap
      (List.nodup_reverse.mpr (List.nodup_finRange tpAbsMax)) [] s.tp
      (by rw [hstay, List.length_nil]; omega) (by rw [List.length_nil]; omega)
    obtain ⟨new, heq, -, -, -⟩ :=
      markLoop_eq (s.tp.nWorkers - newN) outCap (List.finRange tpAbsMax).reverse [] s.tp
    rw [heq] at hlength ⊢
    dsimp only at hlength ⊢
    have hn : s.tp.nWorkers - (([] ++ new).length : ℤ) = newN := by
      rw [hlength]
      omega
    exact congrArg (fun n => { s.counters with nWorkers := n }) hn

end PoolSystem

/-! ## An idle tick -/

/-- What the monitor does with a low utilisation. -/
def Counters.lowSampled (c : Counters) : Counters :=
  if 0 < c.skipSamples then { c with skipSamples := c.skipSamples - 1 }
  else if tpLowConsecutive ≤ c.lowConsecutive + 1 ∧ c.floorWorkers < c.nWorkers then
    ⟨max c.floorWorkers (c.nWorkers - tpStep), c.floorWorkers, 0, 0, tpHysteresisSamples⟩
  else { c with highConsecutive := 0, lowConsecutive := c.lowConsecutive + 1 }

/-- After how many ticks with a low utilisation the pool is at its floor: the ones to skip and to
wait for before the next resize, and 32 for each of the resizes after it. -/
def Counters.ticksToFloor (c : Counters) : ℤ :=
  if c.nWorkers ≤ c.floorWorkers then 0
  else max 0 c.skipSamples + max 1 (tpLowConsecutive - c.lowConsecutive) +
    32 * ((c.nWorkers - c.floorWorkers + 3) / tpStep - 1)

theorem Counters.nWorkers_le_of_done {c : Counters} (h : c.ticksToFloor ≤ 0) :
    c.nWorkers ≤ c.floorWorkers := by
  unfold ticksToFloor tpStep at h
  split at h <;> omega

/-- **Each such tick is one less to wait for.** -/
theorem Counters.ticksToFloor_lowSampled (c : Counters) :
    c.lowSampled.ticksToFloor ≤ max 0 (c.ticksToFloor - 1) := by
  obtain ⟨n, floor, high, low, skip⟩ := c
  unfold lowSampled ticksToFloor tpLowConsecutive tpStep tpHysteresisSamples
  dsimp only
  by_cases hskip : 0 < skip
  · rw [if_pos hskip]
    dsimp only
    split <;> omega
  rw [if_neg hskip]
  by_cases hshrinks : 30 ≤ low + 1 ∧ floor < n
  · -- the two ticks to skip and the thirty to wait for are the 32 of the next resize
    rw [if_pos hshrinks]
    dsimp only
    split <;> split <;> omega
  · rw [if_neg hshrinks]
    dsimp only
    split <;> omega

/-- The tick finds the pool open and its utilisation low. -/
def Tick.Idle (t : Tick β) : Prop :=
  t.before.tp.shutdown = false ∧ t.before.tp.monitorShouldExit = false ∧
    t.before.utilPct ≤ tpLowWaterPct

instance (t : Tick β) : Decidable t.Idle := inferInstanceAs (Decidable (_ ∧ _))

/-- **An idle tick takes away as many workers as the policy says.** -/
theorem Tick.counters_of_idle {t : Tick β} (h : PoolInv t.before) (hidle : t.Idle) :
    t.after.counters = t.before.counters.lowSampled := by
  obtain ⟨s, creates⟩ := t
  obtain ⟨hshut, hexit, hlow⟩ := hidle
  obtain ⟨hpos, hfloor, -⟩ := h.bounds
  dsimp only at *
  unfold Tick.after PoolSystem.monitorSample Counters.lowSampled
  dsimp only
  rw [if_neg (by simp [hshut, hexit])]
  by_cases hskip : 0 < s.tp.skipSamples
  · rw [if_pos hskip, if_pos (show 0 < s.counters.skipSamples from hskip)]
    rfl
  rw [if_neg hskip, if_neg (show ¬ 0 < s.counters.skipSamples from hskip)]
  rw [show (if 0 < s.tp.nWorkers then (s.tp.activeWorkers * 100).tdiv s.tp.nWorkers else 0) =
    s.utilPct from rfl]
  have hhigh : ¬ tpHighWaterPct ≤ s.utilPct := by
    unfold tpHighWaterPct
    unfold tpLowWaterPct at hlow
    omega
  rw [if_neg hhigh, if_pos hlow]
  by_cases hretire : tpLowConsecutive ≤ s.tp.lowConsecutive + 1 ∧ s.tp.floorWorkers < s.tp.nWorkers
  · rw [if_pos hretire, if_pos (show tpLowConsecutive ≤ s.counters.lowConsecutive + 1 ∧
      s.counters.floorWorkers < s.counters.nWorkers from hretire)]
    have htarget : (if s.tp.nWorkers - tpStep < s.tp.floorWorkers then s.tp.floorWorkers
        else s.tp.nWorkers - tpStep) = max s.tp.floorWorkers (s.tp.nWorkers - tpStep) := by
      split <;> omega
    have hstep₄ : tpStep = 4 := rfl
    rw [htarget]
    have hcounters := PoolSystem.threadpoolMarkRetireLocked_all { s with
      tp := { s.tp with lowConsecutive := s.tp.lowConsecutive + 1, highConsecutive := 0 } }
      (max s.tp.floorWorkers (s.tp.nWorkers - tpStep)) tpStep (h.live hshut) (le_max_left _ _)
      (hpos.le.trans (le_max_left _ _)) (by dsimp only; omega)
    obtain ⟨hn, hfloor', hhigh', -, -⟩ := Counters.mk.inj hcounters
    unfold PoolSystem.counters
    dsimp only [PoolSystem.joinRetired] at hn hfloor' hhigh' ⊢
    rw [hn, hfloor', hhigh', min_eq_right (by omega)]
    rfl
  · rw [if_neg hretire, if_neg (show ¬ (tpLowConsecutive ≤ s.counters.lowConsecutive + 1 ∧
      s.counters.floorWorkers < s.counters.nWorkers) from hretire)]
    rfl

/-! ## Runs -/

/-- What the counters are in every run, resizes by others included. -/
structure Counters.Ok (floor : ℤ) (c : Counters) : Prop where
  floor_eq : c.floorWorkers = floor
  low_nonneg : 0 ≤ c.lowConsecutive
  skip_le : c.skipSamples ≤ tpHysteresisSamples

/-- It takes 32 ticks for each four workers above the floor, at most. -/
theorem Counters.Ok.ticksToFloor_le {floor : ℤ} {c : Counters} (h : c.Ok floor) :
    c.ticksToFloor ≤ max 0 (32 * ((c.nWorkers - floor + 3) / tpStep)) := by
  obtain ⟨hfloor, hlow, hskip⟩ := h
  unfold ticksToFloor
  unfold tpLowConsecutive tpStep
  unfold tpHysteresisSamples at hskip
  rw [hfloor]
  split <;> omega

namespace PoolSystem

variable {s s' : PoolSystem β} {floor : ℤ}

/-- A resize by anybody keeps what the monitor counts. -/
theorem counters_resize (s : PoolSystem β) (j : Joiner) (creates : Slot → Bool) (newN : ℤ) :
    ∃ n, (s.threadpoolResize j creates newN).counters = { s.counters with nWorkers := n } := by
  unfold threadpoolResize
  by_cases hnone : newN ≤ 0
  · rw [if_pos hnone]
    exact ⟨_, rfl⟩
  rw [if_neg hnone]
  by_cases hclosed : s.tp.shutdown = true ∨ s.tp.submitClosed = true
  · rw [if_pos hclosed]
    exact ⟨_, rfl⟩
  rw [if_neg hclosed]
  dsimp only
  generalize hsize : (if (if tpSoftMax < newN then tpSoftMax else newN) < s.tp.floorWorkers
    then s.tp.floorWorkers else if tpSoftMax < newN then tpSoftMax else newN) = size
  by_cases hmore : s.tp.nWorkers < size
  · rw [if_pos hmore]
    exact ⟨_, (threadpoolExpandLocked_counters creates s size).2.2⟩
  rw [if_neg hmore]
  by_cases hfewer : size < s.tp.nWorkers
  · rw [if_pos hfewer]
    obtain ⟨n, -, -, hcounters⟩ := threadpoolMarkRetireLocked_counters s size tpAbsMax
    exact ⟨n, hcounters⟩
  · rw [if_neg hfewer]
    exact ⟨_, rfl⟩

/-- So does a tick. -/
theorem countersOk_sample (h : s.counters.Ok floor) (creates : Slot → Bool) :
    (s.monitorSample creates).counters.Ok floor := by
  obtain ⟨hfloor, hlow, hskip⟩ := h
  have hhyst : (0 : ℤ) ≤ tpHysteresisSamples := by decide
  cases heval : s.evaluates with
  | true =>
    have hstep := sampled_monitorSample heval creates
    generalize (s.monitorSample creates).counters = c' at hstep ⊢
    cases hstep with
    | expands | shrinks => exact ⟨hfloor, le_rfl, le_rfl⟩
    | high | middle => exact ⟨hfloor, le_rfl, hskip⟩
    | low => exact ⟨hfloor, Int.le_add_one hlow, hskip⟩
  | false =>
    rcases monitorSample_idle heval creates with hidle | ⟨-, hidle⟩
    · rw [hidle]
      exact ⟨hfloor, hlow, hskip⟩
    · rw [hidle]
      exact ⟨hfloor, hlow, (Int.sub_le_self _ (by decide)).trans hskip⟩

/-- What a step of the pool is to the monitor: a tick, or no change of what it counts. -/
theorem step_sample_or_counters {a : Action β} (h : s.step a = some s') :
    (∃ creates, a = .sample creates ∧ s' = s.monitorSample creates) ∨
      (∀ creates, a ≠ .sample creates) ∧
        ∃ n, s'.counters = { s.counters with nWorkers := n } ∧
          ((∀ id creates newN, a ≠ .resize id creates newN) → n = s.tp.nWorkers) := by
  unfold PoolSystem.step at h
  split at h
  · exact absurd h (by simp)
  cases a with
  | sample creates =>
    obtain ⟨-, heq⟩ := Option.ite_none_right_eq_some.mp h
    exact Or.inl ⟨creates, rfl, (Option.some.inj heq).symm⟩
  | resize id creates newN =>
    obtain ⟨-, heq⟩ := Option.ite_none_right_eq_some.mp h
    rw [← Option.some.inj heq]
    obtain ⟨n, hn⟩ := counters_resize s (.caller id) creates newN
    exact Or.inr ⟨by simp, n, hn, fun hresize => absurd rfl (hresize id creates newN)⟩
  | _ => exact Or.inr ⟨by simp, _, counters_act (by simp) (by simp) h, fun _ => rfl⟩

theorem countersOk_step (h : s.counters.Ok floor) {a : Action β} (hstep : s.step a = some s') :
    s'.counters.Ok floor := by
  rcases step_sample_or_counters hstep with ⟨creates, -, rfl⟩ | ⟨-, n, hn, -⟩
  · exact countersOk_sample h creates
  · rw [hn]
    exact ⟨h.floor_eq, h.low_nonneg, h.skip_le⟩

end PoolSystem

section Results

variable {creates : Slot → Bool} {monitorCreated : Bool} {n : ℤ} {s₀ s s' : PoolSystem β}

theorem ticksOf_sample {actions : List (PoolSystem.Action β)} {ticks : List (Tick β)}
    (hstep : s.step (.sample creates) = some s') :
    ticksOf s (.sample creates :: actions) ticks = ticksOf s' actions (⟨s, creates⟩ :: ticks) := by
  rw [ticksOf, hstep]

theorem ticksOf_of_ne {a : PoolSystem.Action β} {actions : List (PoolSystem.Action β)}
    {ticks : List (Tick β)} (hsample : ∀ creates, a ≠ .sample creates)
    (hstep : s.step a = some s') :
    ticksOf s (a :: actions) ticks = ticksOf s' actions ticks := by
  rw [ticksOf, hstep]
  exact hsample

/-- The ticks of a run come in front of the older ones. -/
theorem suffix_ticksOf (s : PoolSystem β) (actions : List (PoolSystem.Action β))
    (ticks : List (Tick β)) : ticks <:+ ticksOf s actions ticks := by
  induction actions generalizing s ticks with
  | nil => exact List.suffix_rfl
  | cons a actions ih =>
    cases hstep : s.step a with
    | none =>
      unfold ticksOf
      rw [hstep]
    | some t =>
      rcases PoolSystem.step_sample_or_counters hstep with ⟨creates, rfl, -⟩ | ⟨hsample, -⟩
      · rw [ticksOf_sample hstep]
        exact (List.suffix_cons _ _).trans (ih t _)
      · rw [ticksOf_of_ne hsample hstep]
        exact ih t ticks

/-- **Every tick of a run that is idle is one less to wait for.** -/
theorem ticksToFloor_run {actions : List (PoolSystem.Action β)} (h : PoolInv s)
    (hresize : ∀ id creates newN, .resize id creates newN ∉ actions) {ticks : List (Tick β)}
    (hrun : Runs.run PoolSystem.step s actions = some s')
    (hidle : ∀ t ∈ ticksOf s actions ticks, t.Idle) :
    s'.counters.ticksToFloor ≤
      max 0 (s.counters.ticksToFloor - ((ticksOf s actions ticks).length - ticks.length)) := by
  induction actions generalizing s ticks with
  | nil =>
    obtain rfl : s = s' := by simpa [Runs.run] using hrun
    unfold ticksOf
    rw [sub_self, sub_zero]
    exact le_max_right _ _
  | cons a actions ih =>
    obtain ⟨t, hstep, hrest⟩ := Runs.run_cons.mp hrun
    have hresize' : ∀ id creates newN, .resize id creates newN ∉ actions :=
      fun id creates newN hin => hresize id creates newN (List.mem_cons_of_mem _ hin)
    rcases PoolSystem.step_sample_or_counters hstep with
      ⟨creates, rfl, rfl⟩ | ⟨hsample, m, hm, hsame⟩
    · rw [ticksOf_sample hstep] at hidle ⊢
      have hmore := suffix_ticksOf (s.monitorSample creates) actions (⟨s, creates⟩ :: ticks)
      have hlength := hmore.length_le
      have hfirst : Tick.Idle ⟨s, creates⟩ := hidle _ (hmore.mem (List.mem_cons_self ..))
      have hlow := Tick.counters_of_idle h hfirst
      have hless := s.counters.ticksToFloor_lowSampled
      have hthen := ih (h.step hstep) hresize' hrest hidle
      rw [← hlow] at hless
      unfold Tick.after at hless
      rw [List.length_cons] at hthen hlength
      dsimp only at hless
      omega
    · have hother : ∀ id creates newN, a ≠ .resize id creates newN :=
        fun id creates newN heq => hresize id creates newN (heq ▸ List.mem_cons_self ..)
      obtain rfl := hsame hother
      have hcounters : t.counters = s.counters := hm
      rw [ticksOf_of_ne hsample hstep] at hidle ⊢
      rw [← hcounters]
      exact ih (h.step hstep) hresize' hrest hidle

/-- **The pool is back at the size that it was made with once the monitor has found it idle 32 times
for each four workers more, whatever happened before and whatever the threads do in between.** -/
theorem threadpool_idle_shrinks {before actions : List (PoolSystem.Action β)}
    (hcreate : threadpoolCreate creates monitorCreated n = some s₀)
    (hbefore : Runs.run PoolSystem.step s₀ before = some s)
    (hrun : Runs.run PoolSystem.step s actions = some s')
    (hresize : ∀ id creates newN, .resize id creates newN ∉ actions)
    (hidle : ∀ t ∈ ticksOf s actions [], t.Idle)
    (hlong : 32 * ((s.tp.nWorkers - n + 3) / 4) ≤ ((ticksOf s actions []).length : ℤ)) :
    s'.tp.nWorkers = n ∧
      (s'.tp.shutdown = false →
        ((stayingSlots s'.tp.workerAlive s'.tp.workerRetiring).card : ℤ) = n) := by
  have hnew : s₀.counters.Ok n := by
    rw [counters_create hcreate]
    exact ⟨rfl, le_rfl, show (0 : ℤ) ≤ 2 by decide⟩
  have hok : s.counters.Ok n :=
    Runs.preserves (fun _ _ _ hok hstep => PoolSystem.countersOk_step hok hstep) hnew hbefore
  have hok' : s'.counters.Ok n :=
    Runs.preserves (fun _ _ _ hok hstep => PoolSystem.countersOk_step hok hstep) hok hrun
  have hinv := (PoolInv.create hcreate).run hbefore
  have hinv' := hinv.run hrun
  have hticks := ticksToFloor_run hinv hresize hrun hidle
  have hwait := hok.ticksToFloor_le
  have hdone : s'.counters.ticksToFloor ≤ 0 := by
    have hn : s.counters.nWorkers = s.tp.nWorkers := rfl
    rw [hn, show tpStep = 4 from rfl] at hwait
    rw [List.length_nil, Nat.cast_zero, sub_zero] at hticks
    omega
  have hfloor : s'.tp.floorWorkers = n := hok'.floor_eq
  have hsize : s'.tp.nWorkers = n :=
    le_antisymm (hfloor ▸ Counters.nWorkers_le_of_done hdone) (hfloor ▸ hinv'.bounds.2.1)
  exact ⟨hsize, fun hshut => (hinv'.live hshut).count ▸ hsize⟩

/-- Another worker is made, and the monitor takes it away again. -/
def idleRun : List (PoolSystem.Action Unit) :=
  List.replicate 30 (.sample fun _ => true) ++ [.look 1, .join .monitor, .clear .monitor] ++
    List.replicate 2 (.sample fun _ => true)

theorem threadpool_idle_shrinks_one : ∃ s₀ s s' : PoolSystem Unit,
    threadpoolCreate (fun _ => true) true 1 = some s₀ ∧
      Runs.run PoolSystem.step s₀ [.resize 0 (fun _ => true) 2] = some s ∧ s.tp.nWorkers = 2 ∧
      Runs.run PoolSystem.step s idleRun = some s' ∧ s'.tp.nWorkers = 1 := by
  have hall : ((threadpoolCreate (fun _ => true) true 1).bind fun s₀ =>
      (Runs.run PoolSystem.step s₀ [.resize 0 (fun _ => true) 2]).bind fun s =>
        (Runs.run PoolSystem.step s idleRun).map fun _ =>
          decide (s.tp.nWorkers = 2 ∧ (ticksOf s idleRun []).length = 32 ∧
            ∀ t ∈ ticksOf s idleRun [], t.Idle)) = some true := by
    decide +kernel
  obtain ⟨s₀, hcreate, hmap⟩ := Option.bind_eq_some_iff.mp hall
  obtain ⟨s, hbefore, hmap⟩ := Option.bind_eq_some_iff.mp hmap
  obtain ⟨s', hrun, hgood⟩ := Option.map_eq_some_iff.mp hmap
  obtain ⟨hn, hlength, hidle⟩ := of_decide_eq_true hgood
  have hresize : ∀ id creates newN, .resize id creates newN ∉ idleRun := by
    simp [idleRun]
  refine ⟨s₀, s, s', hcreate, hbefore, hn, hrun, ?_⟩
  exact (threadpool_idle_shrinks hcreate hbefore hrun hresize hidle (by rw [hn, hlength]; decide)).1

end Results

end MiniSql

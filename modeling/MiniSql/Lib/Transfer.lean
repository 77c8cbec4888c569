import Mathlib.Data.List.Basic

/-!
# Writing a block to a descriptor

A call of `write` may take fewer bytes than it is offered, may be interrupted, and may fail. A loop
that offers the rest again until all is taken writes a prefix of its block, and all of it when it
says so. What the calls return is a list; a loop that comes to its end is still waiting.

## Main definitions

* `WriteEvent`, `writeAll` — the results of `write`, and the loop.
* `Flows` — results that take at least so many bytes.

## Main results

* `writeAll_prefix`, `writeAll_iff` — what has been written.
* `writeAll_flows` — a loop that is not held up writes its block.
-/

/-- What a call of `write` may return: the number of bytes it took, at most as many as it was
offered, `-1` with `EINTR`, or `-1`. -/
inductive WriteEvent
  | wrote (n : ℕ)
  | interrupted
  | error
  deriving DecidableEq, Repr

namespace Transfer

variable {α : Type*}

/-- The loop: whether it got to the end, what has been written, and the results that are left. With
`zeroFails` a write that takes nothing counts as a failure. -/
def writeAll (zeroFails : Bool) : List WriteEvent → List α → Bool × List α × List WriteEvent
  | events, [] => (true, [], events)
  | [], _ :: _ => (false, [], [])
  | .interrupted :: events, b :: buf => writeAll zeroFails events (b :: buf)
  | .error :: events, _ :: _ => (false, [], events)
  | .wrote n :: events, b :: buf =>
    if n = 0 ∧ zeroFails then (false, [], events)
    else
      let (ok, sent, rest) := writeAll zeroFails events ((b :: buf).drop n)
      (ok, (b :: buf).take n ++ sent, rest)

variable {zeroFails : Bool}

@[simp] theorem writeAll_nil (events : List WriteEvent) :
    writeAll zeroFails events ([] : List α) = (true, [], events) := by
  cases events with
  | nil => rfl
  | cons event events => cases event <;> rfl

/-- **What is written is the beginning of the block, and all of it when the loop says so.** -/
theorem writeAll_spec (events : List WriteEvent) (buf : List α) :
    ∃ rest, buf = (writeAll zeroFails events buf).2.1 ++ rest ∧
      ((writeAll zeroFails events buf).1 = true ↔ rest = []) := by
  fun_induction writeAll zeroFails events buf with
  | case1 events => exact ⟨[], rfl, by simp⟩
  | case2 b buf => exact ⟨b :: buf, rfl, by simp⟩
  | case3 events b buf ih => exact ih
  | case4 events b buf => exact ⟨b :: buf, rfl, by simp⟩
  | case5 n events b buf hzero => exact ⟨b :: buf, rfl, by simp⟩
  | case6 n events b buf hzero ok sent more hwrite ih =>
    rw [hwrite] at ih
    obtain ⟨rest, hrest, hok⟩ := ih
    refine ⟨rest, ?_, hok⟩
    rw [List.append_assoc, ← hrest, List.take_append_drop]

theorem writeAll_prefix (events : List WriteEvent) (buf : List α) :
    (writeAll zeroFails events buf).2.1 <+: buf := by
  obtain ⟨rest, hrest, -⟩ := @writeAll_spec _ zeroFails events buf
  exact ⟨rest, hrest.symm⟩

theorem writeAll_iff (events : List WriteEvent) (buf : List α) :
    (writeAll zeroFails events buf).1 = true ↔ (writeAll zeroFails events buf).2.1 = buf := by
  obtain ⟨rest, hrest, hok⟩ := @writeAll_spec _ zeroFails events buf
  rw [hok]
  constructor
  · intro hnil
    rw [hnil, List.append_nil] at hrest
    exact hrest.symm
  · intro hall
    rw [hall] at hrest
    simpa using hrest.symm

/-- A result that holds nothing up for good. -/
def Moves : WriteEvent → Prop
  | .wrote n => 0 < n
  | .interrupted => True
  | .error => False

/-- A result that takes something. -/
def takes : WriteEvent → Bool
  | .wrote _ => true
  | _ => false

/-- The results take at least `n` bytes, and none is a failure. -/
structure Flows (n : ℕ) (events : List WriteEvent) : Prop where
  moves : ∀ event ∈ events, Moves event
  takes : n ≤ events.countP takes

instance : DecidablePred Moves
  | .wrote n => inferInstanceAs (Decidable (0 < n))
  | .interrupted => inferInstanceAs (Decidable True)
  | .error => inferInstanceAs (Decidable False)

instance (n : ℕ) (events : List WriteEvent) : Decidable (Flows n events) :=
  decidable_of_iff ((∀ event ∈ events, Moves event) ∧ n ≤ events.countP Transfer.takes)
    ⟨fun h => ⟨h.1, h.2⟩, fun h => ⟨h.moves, h.takes⟩⟩

theorem Flows.mono {m n : ℕ} {events : List WriteEvent} (h : Flows n events) (hle : m ≤ n) :
    Flows m events := ⟨h.moves, Nat.le_trans hle h.takes⟩

/-- **A loop that is not held up writes its block**, and leaves the results for what follows. -/
theorem writeAll_flows {events : List WriteEvent} {buf : List α} {n : ℕ}
    (h : Flows (buf.length + n) events) :
    ∃ rest, writeAll zeroFails events buf = (true, buf, rest) ∧ Flows n rest := by
  induction events generalizing buf with
  | nil =>
    have hlen : buf.length + n = 0 := Nat.le_zero.mp h.takes
    have hbuf : buf = [] := List.length_eq_zero_iff.mp (by omega)
    subst hbuf
    exact ⟨[], rfl, h.mono (by simp)⟩
  | cons event events ih =>
    have hmoves : ∀ event ∈ events, Moves event :=
      fun event hmem => h.moves event (List.mem_cons_of_mem _ hmem)
    have hevent := h.moves event (List.mem_cons_self ..)
    have htakes := h.takes
    cases buf with
    | nil => exact ⟨_, writeAll_nil _, h.mono (by simp)⟩
    | cons b buf =>
      cases event with
      | error => exact hevent.elim
      | interrupted => exact ih ⟨hmoves, by simpa [List.countP_cons, Transfer.takes] using htakes⟩
      | wrote k =>
        have hpos : 0 < k := hevent
        have hcount : (b :: buf).length + n ≤ events.countP Transfer.takes + 1 := by
          simpa [List.countP_cons, Transfer.takes] using htakes
        have hdrop : ((b :: buf).drop k).length + n ≤ events.countP Transfer.takes := by
          rw [List.length_drop]
          rw [List.length_cons] at hcount ⊢
          omega
        obtain ⟨rest, hwrite, hflows⟩ := ih ⟨hmoves, hdrop⟩
        refine ⟨rest, ?_, hflows⟩
        rw [writeAll, if_neg (by omega), hwrite]
        dsimp only
        rw [List.take_append_drop]

end Transfer

import Mathlib.Data.List.Nodup
import Mathlib.Logic.Function.Basic

/-!
# Connections behind numbers

Each connection that is accepted gets a number that no open connection has. A reply goes to the
connection that is behind the number when it is sent, and a number that was closed is given to a
later connection. Whoever keeps a number has to know which connection it means.

## Main definitions

* `Handles` — the open numbers, and what was sent to which connection.
* `Handles.At` — how far the connection is that somebody keeps a number for.
* `Handles.Ok` — an open connection has one number, and none has two replies.

## Main results

* `Handles.Ok.accept`, `Handles.Ok.reply`, `Handles.Ok.close` — this is kept.
* `Handles.At.accept`, `Handles.At.reply_of_ne`, `Handles.At.close_of_ne` — what is done to one
  connection does nothing to the others.
-/

/-- The connection behind each open number, how many connections there were, and the replies. -/
structure Handles (ρ : Type*) where
  table : ℕ → Option ℕ
  arrived : ℕ
  replies : List (ℕ × ρ)

namespace Handles

variable {ρ : Type*} {h : Handles ρ} {fd fd' conn other : ℕ}

def empty : Handles ρ := ⟨fun _ => none, 0, []⟩

/-- The next connection gets the number. -/
def accept (h : Handles ρ) (fd : ℕ) : Handles ρ :=
  { h with table := Function.update h.table fd (some h.arrived), arrived := h.arrived + 1 }

/-- A reply to the connection behind the number; to nobody if it is not open. -/
def reply (h : Handles ρ) (fd : ℕ) (r : ρ) : Handles ρ :=
  { h with replies := h.replies ++ (h.table fd).toList.map fun conn => (conn, r) }

def close (h : Handles ρ) (fd : ℕ) : Handles ρ :=
  { h with table := Function.update h.table fd none }

/-- The connections that have a reply, once for each. -/
def answered (h : Handles ρ) : List ℕ := h.replies.map Prod.fst

/-- How far a connection is. -/
inductive Phase
  | waiting
  | answered
  | closed
  deriving DecidableEq

/-- The number is for the connection, and so far is the connection. -/
def At (h : Handles ρ) (fd conn : ℕ) : Phase → Prop
  | .waiting => h.table fd = some conn ∧ conn ∉ h.answered
  | .answered => h.table fd = some conn ∧ conn ∈ h.answered
  | .closed => conn ∈ h.answered ∧ ∀ fd, h.table fd ≠ some conn

theorem At.table_eq {p : Phase} (hat : h.At fd conn p) (hopen : p ≠ .closed) :
    h.table fd = some conn := by
  cases p with
  | waiting => exact hat.1
  | answered => exact hat.1
  | closed => exact absurd rfl hopen

/-- An open connection has one number, and no connection has two replies. -/
structure Ok (h : Handles ρ) : Prop where
  unique : ∀ fd fd' conn, h.table fd = some conn → h.table fd' = some conn → fd = fd'
  table_lt : ∀ fd conn, h.table fd = some conn → conn < h.arrived
  answered_lt : ∀ conn ∈ h.answered, conn < h.arrived
  nodup : h.answered.Nodup

theorem ok_empty : (empty : Handles ρ).Ok where
  unique := fun _ _ _ hfd => by simp [empty] at hfd
  table_lt := fun _ _ hfd => by simp [empty] at hfd
  answered_lt := fun _ hmem => by simp [empty, answered] at hmem
  nodup := List.nodup_nil

/-! ## A reply -/

theorem replies_reply (hfd : h.table fd = some conn) (r : ρ) :
    (h.reply fd r).replies = h.replies ++ [(conn, r)] := by
  simp [reply, hfd]

theorem answered_reply (hfd : h.table fd = some conn) (r : ρ) :
    (h.reply fd r).answered = h.answered ++ [conn] := by
  rw [answered, replies_reply hfd, List.map_append, answered]
  rfl

theorem Ok.reply (hok : h.Ok) (hat : h.At fd conn .waiting) (r : ρ) : (h.reply fd r).Ok where
  unique := hok.unique
  table_lt := hok.table_lt
  answered_lt := by
    rw [answered_reply hat.1]
    intro c hc
    rcases List.mem_append.mp hc with hold | hnew
    · exact hok.answered_lt c hold
    · obtain rfl := List.mem_singleton.mp hnew
      exact hok.table_lt fd c hat.1
  nodup := by
    rw [answered_reply hat.1]
    exact hok.nodup.append (List.nodup_singleton conn)
      (List.disjoint_singleton.mpr hat.2)

theorem At.reply_self (hat : h.At fd conn .waiting) (r : ρ) : (h.reply fd r).At fd conn .answered := by
  refine ⟨hat.1, ?_⟩
  rw [answered_reply hat.1]
  simp

/-- The others are where they were. -/
theorem At.reply_of_ne {p : Phase} (hat : h.At fd' other p) (hfd : h.table fd = some conn)
    (hne : other ≠ conn) (r : ρ) : (h.reply fd r).At fd' other p := by
  have hmem : other ∈ (h.reply fd r).answered ↔ other ∈ h.answered := by
    rw [answered_reply hfd]
    simp [hne]
  cases p with
  | waiting => exact ⟨hat.1, fun hin => hat.2 (hmem.mp hin)⟩
  | answered => exact ⟨hat.1, hmem.mpr hat.2⟩
  | closed => exact ⟨hmem.mpr hat.1, hat.2⟩

/-! ## The end of a connection -/

theorem table_close_of_ne (hne : fd' ≠ fd) : (h.close fd).table fd' = h.table fd' :=
  Function.update_of_ne hne ..

theorem table_close_eq_some :
    (h.close fd).table fd' = some conn ↔ fd' ≠ fd ∧ h.table fd' = some conn := by
  by_cases hfd : fd' = fd
  · simp [close, hfd]
  · rw [table_close_of_ne hfd]
    exact (and_iff_right hfd).symm

theorem Ok.close (hok : h.Ok) (fd : ℕ) : (h.close fd).Ok where
  unique := fun fd₁ fd₂ c h₁ h₂ =>
    hok.unique fd₁ fd₂ c (table_close_eq_some.mp h₁).2 (table_close_eq_some.mp h₂).2
  table_lt := fun fd' c hc => hok.table_lt fd' c (table_close_eq_some.mp hc).2
  answered_lt := hok.answered_lt
  nodup := hok.nodup

theorem At.close_self (hat : h.At fd conn .answered) (hok : h.Ok) :
    (h.close fd).At fd conn .closed := by
  refine ⟨hat.2, fun fd' hfd' => ?_⟩
  obtain ⟨hne, hfd'⟩ := table_close_eq_some.mp hfd'
  exact hne (hok.unique fd' fd conn hfd' hat.1)

/-- The others are where they were. -/
theorem At.close_of_ne {p : Phase} (hat : h.At fd' other p) (hfd : h.table fd = some conn)
    (hne : other ≠ conn) : (h.close fd).At fd' other p := by
  have hopen : h.table fd' = some other → (h.close fd).table fd' = some other := by
    intro hfd'
    refine table_close_eq_some.mpr ⟨?_, hfd'⟩
    rintro rfl
    exact hne (Option.some.inj (hfd'.symm.trans hfd))
  cases p with
  | waiting => exact ⟨hopen hat.1, hat.2⟩
  | answered => exact ⟨hopen hat.1, hat.2⟩
  | closed => exact ⟨hat.1, fun fd₁ h₁ => hat.2 fd₁ (table_close_eq_some.mp h₁).2⟩

/-! ## A new connection -/

theorem table_accept_eq_some (hfree : h.table fd = none) :
    (h.accept fd).table fd' = some conn ↔
      fd' = fd ∧ conn = h.arrived ∨ h.table fd' = some conn := by
  by_cases hfd : fd' = fd
  · subst hfd
    simp [accept, hfree, eq_comm]
  · simp [accept, hfd]

theorem Ok.accept (hok : h.Ok) (hfree : h.table fd = none) : (h.accept fd).Ok where
  unique := by
    intro fd₁ fd₂ c h₁ h₂
    rcases (table_accept_eq_some hfree).mp h₁ with ⟨hfd₁, hc₁⟩ | hold₁ <;>
      rcases (table_accept_eq_some hfree).mp h₂ with ⟨hfd₂, hc₂⟩ | hold₂
    · exact hfd₁.trans hfd₂.symm
    · exact absurd (hc₁ ▸ hok.table_lt fd₂ c hold₂) (Nat.lt_irrefl _)
    · exact absurd (hc₂ ▸ hok.table_lt fd₁ c hold₁) (Nat.lt_irrefl _)
    · exact hok.unique fd₁ fd₂ c hold₁ hold₂
  table_lt := by
    intro fd' c hc
    rcases (table_accept_eq_some hfree).mp hc with ⟨-, rfl⟩ | hc
    · exact Nat.lt_succ_self _
    · exact Nat.lt_succ_of_lt (hok.table_lt fd' c hc)
  answered_lt := fun c hc => Nat.lt_succ_of_lt (hok.answered_lt c hc)
  nodup := hok.nodup

theorem Ok.at_accept_self (hok : h.Ok) (hfree : h.table fd = none) :
    (h.accept fd).At fd h.arrived .waiting :=
  ⟨(table_accept_eq_some hfree).mpr (Or.inl ⟨rfl, rfl⟩),
    fun hmem => Nat.lt_irrefl _ (hok.answered_lt _ hmem)⟩

/-- The others are where they were. -/
theorem At.accept {p : Phase} (hat : h.At fd' other p) (hok : h.Ok) (hfree : h.table fd = none) :
    (h.accept fd).At fd' other p := by
  cases p with
  | waiting => exact ⟨(table_accept_eq_some hfree).mpr (Or.inr hat.1), hat.2⟩
  | answered => exact ⟨(table_accept_eq_some hfree).mpr (Or.inr hat.1), hat.2⟩
  | closed =>
    refine ⟨hat.1, fun fd₁ h₁ => ?_⟩
    rcases (table_accept_eq_some hfree).mp h₁ with ⟨-, rfl⟩ | h₁
    · exact Nat.lt_irrefl _ (hok.answered_lt _ hat.1)
    · exact hat.2 fd₁ h₁

theorem At.lt {p : Phase} (hat : h.At fd conn p) (hok : h.Ok) : conn < h.arrived := by
  cases p with
  | waiting => exact hok.table_lt fd conn hat.1
  | answered => exact hok.table_lt fd conn hat.1
  | closed => exact hok.answered_lt conn hat.1

end Handles

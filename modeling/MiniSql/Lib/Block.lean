import Mathlib.Data.List.Basic
import Mathlib.Data.List.Induction

/-!
# Arrays of a fixed size

An array as a program allocates it: its cells hold nothing until they are written, and an
access outside the array has no result. The loops that search, shift and copy are the usual
ones; each comes with what it does to an array that holds a list in its first cells.

## Main definitions

* `Block`, `Block.read`, `Block.write` — an array and its two accesses.
* `Block.scan`, `Block.insertAt`, `Block.copy` — the loops.
* `Block.Holds` — the first cells hold the values of a list.
-/

/-- An array; `none` is a cell that was not written yet. -/
abbrev Block (α : Type*) := List (Option α)

namespace Block

variable {α : Type*}

/-- A new array. -/
def alloc (size : ℕ) : Block α := List.replicate size none

/-- Read a cell. -/
def read (b : Block α) (i : ℕ) : Option α := (b[i]?).join

/-- Write a cell. -/
def write (b : Block α) (i : ℕ) (x : α) : Option (Block α) :=
  if i < b.length then some (b.set i (some x)) else none

/-- `while (i < i + n && p(b[i])) ++i`: where the loop stops. -/
def scan (p : α → Bool) (b : Block α) : ℕ → ℕ → Option ℕ
  | 0, i => some i
  | n + 1, i => (b.read i).bind fun x => if p x then scan p b n (i + 1) else some i

/-- `for (j = i + n; j > i; --j) b[j] = b[j - 1]`. -/
def shift (i : ℕ) : ℕ → Block α → Option (Block α)
  | 0, b => some b
  | n + 1, b => do
    let x ← b.read (i + n)
    let b ← b.write (i + n + 1) x
    shift i n b

/-- Make room at place `i` among the first `n` cells and write there. -/
def insertAt (b : Block α) (i n : ℕ) (x : α) : Option (Block α) := do
  let b ← shift i (n - i) b
  b.write i x

/-- `for (k = 0; k < n; ++k) target[k] = source[start + k]`. -/
def copy (source : Block α) (start : ℕ) : ℕ → Block α → Option (Block α)
  | 0, target => some target
  | n + 1, target => do
    let target ← copy source start n target
    let x ← source.read (start + n)
    target.write n x

/-- The first cells hold the values of the list. -/
def Holds (b : Block α) (l : List α) : Prop := ∃ rest, b = l.map some ++ rest

@[simp] theorem length_alloc (size : ℕ) : (alloc size : Block α).length = size := by
  simp [alloc]

theorem holds_nil (b : Block α) : Holds b [] := ⟨b, rfl⟩

theorem Holds.length_le {b : Block α} {l : List α} (h : Holds b l) : l.length ≤ b.length := by
  obtain ⟨rest, rfl⟩ := h
  simp

/-- What is held stays held when fewer cells count. -/
theorem Holds.take {b : Block α} {l : List α} (h : Holds b l) (n : ℕ) : Holds b (l.take n) := by
  obtain ⟨rest, rfl⟩ := h
  exact ⟨(l.drop n).map some ++ rest, by rw [← List.append_assoc, ← List.map_append,
    List.take_append_drop]⟩

theorem read_append (l : List α) (x : α) (rest : Block α) :
    read (l.map some ++ some x :: rest) l.length = some x := by
  simp [read]

theorem write_append (l : List α) (x : α) (c : Option α) (rest : Block α) :
    write (l.map some ++ c :: rest) l.length x = some (l.map some ++ some x :: rest) := by
  simp [write]

theorem Holds.read {b : Block α} {l : List α} {i : ℕ} {x : α} (h : Holds b l)
    (hx : l[i]? = some x) : b.read i = some x := by
  obtain ⟨rest, rfl⟩ := h
  obtain ⟨hi, rfl⟩ := List.getElem?_eq_some_iff.mp hx
  rw [Block.read, List.getElem?_append_left (by simpa using hi)]
  simp [hi]

/-- Writing over a held value. -/
theorem Holds.write {b : Block α} {l : List α} {i : ℕ} (h : Holds b l) (hi : i < l.length)
    (x : α) : ∃ b', b.write i x = some b' ∧ Holds b' (l.set i x) ∧ b'.length = b.length := by
  have hlt : i < b.length := Nat.lt_of_lt_of_le hi h.length_le
  refine ⟨b.set i (some x), if_pos hlt, ?_, List.length_set⟩
  obtain ⟨rest, rfl⟩ := h
  exact ⟨rest, by rw [List.map_set, List.set_append_left _ _ (by simpa using hi)]⟩

/-- Writing behind the held values. -/
theorem Holds.write_end {b : Block α} {l : List α} (h : Holds b l) (hroom : l.length < b.length)
    (x : α) : ∃ b', b.write l.length x = some b' ∧ Holds b' (l ++ [x]) ∧ b'.length = b.length := by
  obtain ⟨rest, rfl⟩ := h
  cases rest with
  | nil => simp at hroom
  | cons c rest => exact ⟨_, write_append l x c rest, ⟨rest, by simp⟩, by simp⟩

/-- **The search loop stops at the first held value that fails the test.** -/
theorem Holds.scan {b : Block α} {l : List α} (h : Holds b l) (p : α → Bool) :
    b.scan p l.length 0 = some (l.takeWhile p).length := by
  suffices hloop : ∀ (l pre : List α), Holds b (pre ++ l) →
      b.scan p l.length pre.length = some (pre.length + (l.takeWhile p).length) by
    simpa using hloop l [] h
  intro l
  induction l with
  | nil => exact fun pre _ => by simp [Block.scan]
  | cons x l ih =>
    intro pre h
    have hread : b.read pre.length = some x := h.read (by simp)
    have hrest := ih (pre ++ [x]) (by simpa using h)
    rw [List.length_cons, Block.scan, hread, Option.bind_some]
    by_cases hp : p x
    · rw [if_pos hp, List.takeWhile_cons_of_pos hp]
      rw [List.length_append, List.length_singleton] at hrest
      rw [hrest, List.length_cons]
      congr 1
      omega
    · rw [if_neg hp, List.takeWhile_cons_of_neg hp]
      rfl

/-- The loop from the end moves the values behind place `i` by one cell. -/
theorem shift_append (front back : List α) : ∀ (c : Option α) (rest : Block α),
    ∃ d, shift front.length back.length (front.map some ++ back.map some ++ c :: rest) =
      some (front.map some ++ d :: (back.map some ++ rest)) := by
  induction back using List.reverseRecOn with
  | nil => exact fun c rest => ⟨c, by simp [shift]⟩
  | append_singleton back y ih =>
    intro c rest
    have hsplit : front.map some ++ (back ++ [y]).map some ++ c :: rest =
        (front ++ back).map some ++ some y :: c :: rest := by simp
    have hread : read ((front ++ back).map some ++ some y :: c :: rest)
        (front.length + back.length) = some y := by
      rw [← List.length_append, read_append]
    have hwrite : write ((front ++ back).map some ++ some y :: c :: rest)
        (front.length + back.length + 1) y =
          some (front.map some ++ back.map some ++ some y :: some y :: rest) := by
      have := write_append (front ++ back ++ [y]) y c rest
      simpa [Nat.add_assoc] using this
    obtain ⟨d, hd⟩ := ih (some y) (some y :: rest)
    refine ⟨d, ?_⟩
    rw [hsplit, List.length_append, List.length_singleton, shift, hread, Option.bind_eq_bind,
      Option.bind_some, hwrite, Option.bind_eq_bind, Option.bind_some, hd]
    simp

/-- **Making room at a place and writing there inserts the value.** -/
theorem Holds.insertAt {b : Block α} {l : List α} {i : ℕ} (h : Holds b l) (hi : i ≤ l.length)
    (hroom : l.length < b.length) (x : α) :
    ∃ b', b.insertAt i l.length x = some b' ∧ Holds b' (l.insertIdx i x) ∧
      b'.length = b.length := by
  obtain ⟨rest, rfl⟩ := h
  cases rest with
  | nil => simp at hroom
  | cons c rest =>
    have hfront : (l.take i).length = i := List.length_take_of_le hi
    obtain ⟨d, hshift⟩ := shift_append (l.take i) (l.drop i) c rest
    rw [← List.map_append, List.take_append_drop, hfront, List.length_drop] at hshift
    have hwrite := write_append (l.take i) x d ((l.drop i).map some ++ rest)
    rw [hfront] at hwrite
    have hins : l.insertIdx i x = l.take i ++ x :: l.drop i := by
      clear hshift hwrite hroom
      induction l generalizing i with
      | nil => simp_all
      | cons y l ih =>
        cases i with
        | zero => rfl
        | succ i =>
          have hrest := ih (by simpa using hi) (by simpa using hfront)
          simp [List.insertIdx_succ_cons, hrest]
    refine ⟨(l.take i).map some ++ some x :: ((l.drop i).map some ++ rest), ?_, ⟨rest, ?_⟩, ?_⟩
    · rw [Block.insertAt, hshift, Option.bind_eq_bind, Option.bind_some, hwrite]
    · rw [hins]
      simp
    · simp only [List.length_append, List.length_map, List.length_cons, List.length_drop, hfront]
      omega

/-- **Copying a part of the held values.** -/
theorem Holds.copy {source : Block α} {l : List α} (h : Holds source l) (start n : ℕ)
    (target : Block α) (hn : start + n ≤ l.length) (hroom : n ≤ target.length) :
    ∃ target', source.copy start n target = some target' ∧
      Holds target' ((l.drop start).take n) ∧ target'.length = target.length := by
  induction n with
  | zero => exact ⟨target, rfl, by simpa using holds_nil target, rfl⟩
  | succ n ih =>
    obtain ⟨t, hcopy, hholds, hlen⟩ := ih (by omega) (by omega)
    have hlt : start + n < l.length := by omega
    have hread : source.read (start + n) = some l[start + n] :=
      h.read (List.getElem?_eq_getElem hlt)
    have hcount : ((l.drop start).take n).length = n := by
      rw [List.length_take, List.length_drop]
      omega
    obtain ⟨t', hwrite, hholds', hlen'⟩ := hholds.write_end (by omega) l[start + n]
    rw [hcount] at hwrite
    refine ⟨t', ?_, ?_, hlen'.trans hlen⟩
    · rw [Block.copy, hcopy, Option.bind_eq_bind, Option.bind_some, hread, Option.bind_eq_bind,
        Option.bind_some, hwrite]
    · have hnext : (l.drop start)[n]? = some l[start + n] := by
        rw [List.getElem?_drop, List.getElem?_eq_getElem hlt]
      rw [List.take_add_one, hnext]
      exact hholds'

end Block

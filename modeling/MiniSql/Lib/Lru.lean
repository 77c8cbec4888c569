import Mathlib.Data.List.Nodup

/-!
# A map of bounded size that forgets what was not used for longest

The entries stand in the order in which they were used, the last used one first. A search for a
key and a new value for it use its entry. A key that is new when the map is full throws out the
entry at the end.

## Main definitions

* `Lru` — the entries: no key twice, and not more than the capacity.
* `Lru.get`, `Lru.put`, `Lru.erase`, `Lru.clear`.

## Main results

* `Lru.put_of_full`, `Lru.put_of_room` — what a new key throws out.
* `Lru.lookup_put_self`, `Lru.lookup_get`, `Lru.lookup_erase` — what a search finds.
-/

variable {κ β : Type*}

variable (κ β) in
/-- The entries, the last used one first. -/
structure Lru where
  capacity : ℕ
  entries : List (κ × β)
  capacity_pos : 0 < capacity
  nodup : (entries.map Prod.fst).Nodup
  length_le : entries.length ≤ capacity

namespace Lru

/-- A map without entries. -/
def empty (n : ℕ) (h : 0 < n) : Lru κ β := ⟨n, [], h, by simp, by simp⟩

variable [DecidableEq κ]

/-- The entries of the other keys. -/
def without (entries : List (κ × β)) (k : κ) : List (κ × β) := entries.filter fun e => e.1 ≠ k

theorem without_of_not_mem {entries : List (κ × β)} {k : κ} (h : k ∉ entries.map Prod.fst) :
    without entries k = entries := by
  refine List.filter_eq_self.mpr fun e he => ?_
  have hne : e.1 ≠ k := fun heq => h (List.mem_map.mpr ⟨e, he, heq⟩)
  simpa using hne

theorem not_mem_without (entries : List (κ × β)) (k : κ) : k ∉ (without entries k).map Prod.fst := by
  intro hmem
  obtain ⟨e, he, rfl⟩ := List.mem_map.mp hmem
  simpa using (List.mem_filter.mp he).2

theorem nodup_without {entries : List (κ × β)} (h : (entries.map Prod.fst).Nodup) (k : κ) :
    ((without entries k).map Prod.fst).Nodup :=
  h.sublist (List.filter_sublist.map _)

/-- The other keys are fewer where the key is there. -/
theorem length_without_lt {entries : List (κ × β)} {k : κ} (h : k ∈ entries.map Prod.fst) :
    (without entries k).length < entries.length := by
  obtain ⟨e, he, rfl⟩ := List.mem_map.mp h
  exact List.length_filter_lt_length_iff_exists.mpr ⟨e, he, by simp⟩

/-- What the map holds for a key. -/
def lookup (m : Lru κ β) (k : κ) : Option β := (m.entries.find? fun e => e.1 = k).map Prod.snd

/-- A new value. What does not fit any more is thrown out at the end. -/
def put (m : Lru κ β) (k : κ) (b : β) : Lru κ β :=
  { m with
    entries := (k, b) :: (without m.entries k).take (m.capacity - 1)
    nodup := by
      rw [List.map_cons]
      refine List.nodup_cons.mpr ⟨fun hmem => not_mem_without m.entries k ?_, ?_⟩
      · exact ((List.take_sublist _ _).map Prod.fst).subset hmem
      · exact (nodup_without m.nodup k).sublist ((List.take_sublist _ _).map Prod.fst)
    length_le := by
      have hpos := m.capacity_pos
      have htake := List.length_take_le (m.capacity - 1) (without m.entries k)
      rw [List.length_cons]
      omega }

/-- A search. It uses the entry that it finds. -/
def get (m : Lru κ β) (k : κ) : Option β × Lru κ β :=
  match m.lookup k with
  | none => (none, m)
  | some b => (some b, m.put k b)

/-- A key is forgotten. -/
def erase (m : Lru κ β) (k : κ) : Lru κ β :=
  { m with
    entries := without m.entries k
    nodup := nodup_without m.nodup k
    length_le := Nat.le_trans (List.length_filter_le _ _) m.length_le }

omit [DecidableEq κ] in
/-- All keys are forgotten. -/
def clear (m : Lru κ β) : Lru κ β := empty m.capacity m.capacity_pos

/-! ## What is thrown out -/

variable {m : Lru κ β} {k k' : κ}

/-- A new key in a full map throws out the entry that was not used for longest. -/
theorem put_of_full (h : k ∉ m.entries.map Prod.fst) (hfull : m.entries.length = m.capacity) (b : β) :
    (m.put k b).entries = (k, b) :: m.entries.dropLast := by
  change (k, b) :: (without m.entries k).take (m.capacity - 1) = _
  rw [without_of_not_mem h, List.dropLast_eq_take, hfull]

/-- A new key in a map with room throws nothing out. -/
theorem put_of_room (h : k ∉ m.entries.map Prod.fst) (hroom : m.entries.length < m.capacity) (b : β) :
    (m.put k b).entries = (k, b) :: m.entries := by
  change (k, b) :: (without m.entries k).take (m.capacity - 1) = _
  rw [without_of_not_mem h, List.take_of_length_le (by omega)]

/-- A key that is there gets its new value, and throws nothing out. -/
theorem put_of_mem (h : k ∈ m.entries.map Prod.fst) (b : β) :
    (m.put k b).entries = (k, b) :: without m.entries k := by
  have hlt := length_without_lt h
  have hle := m.length_le
  change (k, b) :: (without m.entries k).take (m.capacity - 1) = _
  rw [List.take_of_length_le (by omega)]

/-! ## What a search finds -/

theorem get_fst (m : Lru κ β) (k : κ) : (m.get k).1 = m.lookup k := by
  unfold get
  cases m.lookup k <;> rfl

theorem mem_of_lookup {b : β} (h : m.lookup k = some b) : k ∈ m.entries.map Prod.fst := by
  obtain ⟨e, he, -⟩ := Option.map_eq_some_iff.mp h
  exact List.mem_map.mpr ⟨e, List.mem_of_find?_eq_some he, by simpa using List.find?_some he⟩

/-- A search finds each entry. -/
theorem lookup_of_mem {b : β} (h : (k, b) ∈ m.entries) : m.lookup k = some b := by
  unfold lookup
  cases hfind : m.entries.find? fun e => e.1 = k with
  | none =>
    have hne := List.find?_eq_none.mp hfind _ h
    exact absurd (decide_eq_true rfl) hne
  | some e =>
    have hkey : e.1 = k := by simpa using List.find?_some hfind
    have heq := List.inj_on_of_nodup_map m.nodup (List.mem_of_find?_eq_some hfind) h hkey
    rw [heq]
    rfl

theorem find?_without (hne : k' ≠ k) (entries : List (κ × β)) :
    (without entries k).find? (fun e => e.1 = k') = entries.find? fun e => e.1 = k' := by
  unfold without
  rw [List.find?_filter]
  congr 1
  funext e
  by_cases heq : e.1 = k'
  · simp [heq, hne]
  · simp [heq]

theorem lookup_put_self (m : Lru κ β) (k : κ) (b : β) : (m.put k b).lookup k = some b := by
  simp [lookup, put]

theorem lookup_get (m : Lru κ β) (k k' : κ) : (m.get k).2.lookup k' = m.lookup k' := by
  unfold get
  cases h : m.lookup k with
  | none => rfl
  | some b =>
    by_cases heq : k' = k
    · rw [heq, lookup_put_self, h]
    · change ((m.put k b).entries.find? fun e => e.1 = k').map Prod.snd = _
      rw [put_of_mem (mem_of_lookup h), List.find?_cons_of_neg (by simpa using Ne.symm heq),
        find?_without heq]
      rfl

end Lru

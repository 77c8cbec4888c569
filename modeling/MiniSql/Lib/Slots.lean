import Mathlib.Data.List.Basic
import Mathlib.Data.List.Nodup
import Mathlib.Data.Finset.Card

/-!
# Arrays of keyed slots

A fixed-capacity array of `(key, value)` slots that is searched from the front, filled at the
end and closed up when a slot is removed: the shape of a small cache kept in static memory.

## Main definitions

* `Slots.find`, `Slots.add`, `Slots.modify`, `Slots.remove`.
* `Slots.keys` — the keys in use, in order.
-/

/-- The slots in use. -/
abbrev Slots (K V : Type*) := List (K × V)

namespace Slots

variable {K V : Type*} [DecidableEq K]

/-- The value in the first slot of the key. -/
def find (s : Slots K V) (k : K) : Option V := List.lookup k s

/-- Fill the next slot, if there is one. -/
def add (capacity : ℕ) (s : Slots K V) (k : K) (v : V) : Slots K V :=
  if s.length < capacity then s ++ [(k, v)] else s

/-- Change the value in the first slot of the key. -/
def modify (k : K) (f : V → V) : Slots K V → Slots K V
  | [] => []
  | (k', v) :: s => if k' = k then (k', f v) :: s else (k', v) :: modify k f s

/-- Remove the first slot of the key. -/
def remove (k : K) : Slots K V → Slots K V
  | [] => []
  | (k', v) :: s => if k' = k then s else (k', v) :: remove k s

/-- The keys in use. -/
def keys (s : Slots K V) : List K := s.map Prod.fst

@[simp] theorem find_nil (k : K) : find ([] : Slots K V) k = none := rfl

theorem find_cons (k k' : K) (v : V) (s : Slots K V) :
    find ((k', v) :: s) k = if k' = k then some v else find s k := by
  by_cases h : k' = k
  · simp [find, h]
  · have hne : (k == k') = false := by simpa using Ne.symm h
    simp [find, List.lookup_cons, h, hne]

theorem find_append (s t : Slots K V) (k : K) : find (s ++ t) k = (find s k).or (find t k) :=
  List.lookup_append

theorem find_eq_none_iff {s : Slots K V} {k : K} : find s k = none ↔ k ∉ keys s := by
  induction s with
  | nil => simp [keys]
  | cons p s ih =>
    obtain ⟨k', v⟩ := p
    rw [find_cons]
    by_cases h : k' = k
    · simp [keys, h]
    · simp only [h, if_false, ih, keys, List.map_cons, List.mem_cons, not_or]
      exact ⟨fun hk => ⟨Ne.symm h, hk⟩, And.right⟩

/-! ## Filling a slot -/

theorem find_add_of_ne {capacity : ℕ} {s : Slots K V} {k k' : K} (v : V) (h : k' ≠ k) :
    find (add capacity s k v) k' = find s k' := by
  unfold add
  split
  · rw [find_append, find_cons, if_neg (Ne.symm h)]
    simp
  · rfl

theorem find_add_self {capacity : ℕ} {s : Slots K V} {k : K} (v : V) (hroom : s.length < capacity)
    (h : find s k = none) : find (add capacity s k v) k = some v := by
  rw [add, if_pos hroom, find_append, h, find_cons, if_pos rfl]
  rfl

omit [DecidableEq K] in
theorem add_of_full {capacity : ℕ} {s : Slots K V} {k : K} {v : V} (h : ¬ s.length < capacity) :
    add capacity s k v = s := if_neg h

theorem nodup_keys_add {capacity : ℕ} {s : Slots K V} {k : K} {v : V} (hs : (keys s).Nodup)
    (h : find s k = none) : (keys (add capacity s k v)).Nodup := by
  unfold add
  split
  · rw [keys, List.map_append]
    have hk := find_eq_none_iff.mp h
    simpa [List.nodup_append, keys] using ⟨hs, fun a b hab => by
      rintro rfl
      exact hk (List.mem_map_of_mem (f := Prod.fst) hab)⟩
  · exact hs

/-! ## Changing and removing a slot -/

@[simp] theorem keys_modify (k : K) (f : V → V) (s : Slots K V) :
    keys (modify k f s) = keys s := by
  induction s with
  | nil => rfl
  | cons p s ih =>
    rw [modify]
    split
    · rfl
    · simpa [keys] using ih

@[simp] theorem length_modify (k : K) (f : V → V) (s : Slots K V) :
    (modify k f s).length = s.length := by
  have := congrArg List.length (keys_modify k f s)
  simpa [keys] using this

theorem find_modify_self (k : K) (f : V → V) (s : Slots K V) :
    find (modify k f s) k = (find s k).map f := by
  induction s with
  | nil => rfl
  | cons p s ih =>
    obtain ⟨k', v⟩ := p
    rw [modify]
    by_cases h : k' = k
    · rw [if_pos h, find_cons, find_cons, if_pos h, if_pos h]
      rfl
    · rw [if_neg h, find_cons, find_cons, if_neg h, if_neg h, ih]

theorem find_modify_of_ne {k k' : K} (f : V → V) (s : Slots K V) (h : k' ≠ k) :
    find (modify k f s) k' = find s k' := by
  induction s with
  | nil => rfl
  | cons p s ih =>
    obtain ⟨kp, v⟩ := p
    rw [modify]
    by_cases hp : kp = k
    · subst hp
      rw [if_pos rfl, find_cons, find_cons, if_neg (Ne.symm h), if_neg (Ne.symm h)]
    · rw [if_neg hp, find_cons, find_cons, ih]

theorem remove_sublist (k : K) (s : Slots K V) : (remove k s).Sublist s := by
  induction s with
  | nil => exact .slnil
  | cons p s ih =>
    rw [remove]
    split
    · exact List.sublist_cons_self ..
    · exact ih.cons_cons _

theorem find_remove_of_ne {k k' : K} (s : Slots K V) (h : k' ≠ k) :
    find (remove k s) k' = find s k' := by
  induction s with
  | nil => rfl
  | cons p s ih =>
    obtain ⟨kp, v⟩ := p
    rw [remove]
    by_cases hp : kp = k
    · subst hp
      rw [if_pos rfl, find_cons, if_neg (Ne.symm h)]
    · rw [if_neg hp, find_cons, find_cons, ih]

theorem find_remove_self {k : K} {s : Slots K V} (hs : (keys s).Nodup) :
    find (remove k s) k = none := by
  induction s with
  | nil => rfl
  | cons p s ih =>
    obtain ⟨kp, v⟩ := p
    obtain ⟨hk, hs⟩ := List.nodup_cons.mp hs
    rw [remove]
    by_cases hp : kp = k
    · subst hp
      rw [if_pos rfl]
      exact find_eq_none_iff.mpr hk
    · rw [if_neg hp, find_cons, if_neg hp, ih hs]

theorem remove_of_find_none {k : K} {s : Slots K V} (h : find s k = none) : remove k s = s := by
  induction s with
  | nil => rfl
  | cons p s ih =>
    obtain ⟨kp, v⟩ := p
    rw [find_cons] at h
    split_ifs at h with hp
    rw [remove, if_neg hp, ih h]

theorem remove_append_self {k : K} {s : Slots K V} (v : V) (h : find s k = none) :
    remove k (s ++ [(k, v)]) = s := by
  induction s with
  | nil => exact if_pos rfl
  | cons p s ih =>
    obtain ⟨kp, w⟩ := p
    rw [find_cons] at h
    split_ifs at h with hp
    rw [List.cons_append, remove, if_neg hp, ih h]

theorem remove_modify_self (k : K) (f : V → V) (s : Slots K V) :
    remove k (modify k f s) = remove k s := by
  induction s with
  | nil => rfl
  | cons p s ih =>
    obtain ⟨kp, v⟩ := p
    by_cases h : kp = k
    · simp [modify, remove, h]
    · simp [modify, remove, h, ih]

theorem nodup_keys_remove {k : K} {s : Slots K V} (hs : (keys s).Nodup) :
    (keys (remove k s)).Nodup :=
  hs.sublist ((remove_sublist k s).map _)

end Slots

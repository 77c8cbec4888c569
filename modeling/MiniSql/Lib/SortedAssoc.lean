import Mathlib.Order.Basic
import Mathlib.Data.List.Sort

/-!
# Association lists in key order

The content of a search tree: a list of key-value pairs whose keys increase. Insertion keeps
the order and overwrites the value of a key that is already there.

## Main results

* `lookup_insert` — what a lookup finds after an insertion.
* `insert_append_left`, `insert_append_right` — an insertion happens in one part only.
* `filterMap_eq` — what is made of the values depends on the lookups only.
-/

namespace SortedAssoc

variable {K V : Type*} [LinearOrder K]

/-- The keys increase strictly. -/
def Sorted (l : List (K × V)) : Prop := l.Pairwise fun a b => a.1 < b.1

/-- Insert a pair at the place of its key, over the pair that has the key already. -/
def insert (k : K) (v : V) : List (K × V) → List (K × V)
  | [] => [(k, v)]
  | (k', v') :: l =>
    if k' < k then (k', v') :: insert k v l
    else if k' = k then (k, v) :: l
    else (k, v) :: (k', v') :: l

@[simp] theorem insert_nil (k : K) (v : V) : insert k v [] = [(k, v)] := rfl

theorem mem_insert {k : K} {v : V} {l : List (K × V)} {x : K × V} (h : x ∈ insert k v l) :
    x = (k, v) ∨ x ∈ l := by
  induction l with
  | nil => exact .inl (by simpa using h)
  | cons p l ih =>
    rw [insert] at h
    split_ifs at h
    · rcases List.mem_cons.mp h with rfl | h
      · exact .inr (by simp)
      · exact (ih h).imp id (List.mem_cons_of_mem _)
    · rcases List.mem_cons.mp h with rfl | h
      · exact .inl rfl
      · exact .inr (List.mem_cons_of_mem _ h)
    · exact List.mem_cons.mp h

theorem length_insert_le (k : K) (v : V) (l : List (K × V)) :
    (insert k v l).length ≤ l.length + 1 := by
  induction l with
  | nil => simp
  | cons p l ih =>
    rw [insert]
    split_ifs
    all_goals simp
    omega

theorem length_le_insert (k : K) (v : V) (l : List (K × V)) :
    l.length ≤ (insert k v l).length := by
  induction l with
  | nil => simp
  | cons p l ih =>
    rw [insert]
    split_ifs
    all_goals simp
    exact ih

/-- Where an insertion overwrites a value. -/
theorem insert_eq_set {l : List (K × V)} {k : K} (v : V) {p : K × V}
    (hp : l[(l.takeWhile (·.1 < k)).length]? = some p) (hk : p.1 = k) :
    insert k v l = l.set (l.takeWhile (·.1 < k)).length (k, v) := by
  induction l with
  | nil => simp at hp
  | cons q l ih =>
    obtain ⟨kq, vq⟩ := q
    rw [insert]
    by_cases hlt : kq < k
    · rw [List.takeWhile_cons_of_pos (by simpa using hlt)] at hp ⊢
      rw [if_pos hlt, ih (by simpa using hp)]
      rfl
    · rw [List.takeWhile_cons_of_neg (by simpa using hlt)] at hp ⊢
      obtain rfl : (kq, vq) = p := by simpa using hp
      rw [if_neg hlt, if_pos hk]
      rfl

/-- Where an insertion adds a pair. -/
theorem insert_eq_insertIdx {l : List (K × V)} {k : K} (v : V)
    (hp : ∀ p, l[(l.takeWhile (·.1 < k)).length]? = some p → p.1 ≠ k) :
    insert k v l = l.insertIdx (l.takeWhile (·.1 < k)).length (k, v) := by
  induction l with
  | nil => rfl
  | cons q l ih =>
    obtain ⟨kq, vq⟩ := q
    rw [insert]
    by_cases hlt : kq < k
    · rw [List.takeWhile_cons_of_pos (by simpa using hlt)] at hp ⊢
      rw [if_pos hlt, ih fun p h => hp p (by simpa using h)]
      rfl
    · rw [List.takeWhile_cons_of_neg (by simpa using hlt)] at hp ⊢
      rw [if_neg hlt, if_neg (hp _ rfl)]
      rfl

theorem Sorted.insert {l : List (K × V)} (h : Sorted l) (k : K) (v : V) :
    Sorted (insert k v l) := by
  induction l with
  | nil => exact List.pairwise_singleton ..
  | cons p l ih =>
    obtain ⟨hp, hl⟩ := List.pairwise_cons.mp h
    rw [SortedAssoc.insert]
    split_ifs with hlt heq
    · refine List.pairwise_cons.mpr ⟨fun x hx => ?_, ih hl⟩
      rcases mem_insert hx with rfl | hx
      · exact hlt
      · exact hp x hx
    · exact List.pairwise_cons.mpr ⟨fun x hx => heq ▸ hp x hx, hl⟩
    · have hk : k < p.1 := lt_of_le_of_ne (not_lt.mp hlt) (Ne.symm heq)
      refine List.pairwise_cons.mpr ⟨fun x hx => ?_, h⟩
      rcases List.mem_cons.mp hx with rfl | hx
      · exact hk
      · exact hk.trans (hp x hx)

theorem lookup_cons (k k' : K) (v : V) (l : List (K × V)) :
    ((k', v) :: l).lookup k = if k = k' then some v else l.lookup k := by
  by_cases h : k = k'
  · simp [h]
  · have hne : (k == k') = false := by simpa using h
    simp [List.lookup_cons, h, hne]

/-- **What a lookup finds after an insertion.** -/
theorem lookup_insert (k k' : K) (v : V) (l : List (K × V)) :
    (insert k v l).lookup k' = if k' = k then some v else l.lookup k' := by
  induction l with
  | nil => rw [insert_nil, lookup_cons]
  | cons p l ih =>
    obtain ⟨kp, vp⟩ := p
    rw [insert]
    by_cases hlt : kp < k
    · rw [if_pos hlt, lookup_cons, lookup_cons, ih]
      by_cases hk : k' = k
      · rw [if_pos hk, if_pos hk, if_neg (hk ▸ ne_of_gt hlt)]
      · rw [if_neg hk, if_neg hk]
    · rw [if_neg hlt]
      by_cases heq : kp = k
      · rw [if_pos heq, lookup_cons, lookup_cons, heq]
        by_cases hk : k' = k
        · rw [if_pos hk, if_pos hk]
        · rw [if_neg hk, if_neg hk, if_neg hk]
      · rw [if_neg heq, lookup_cons]

/-- In key order, a pair is found under its key. -/
theorem lookup_eq_some_iff {l : List (K × V)} (h : Sorted l) {k : K} {v : V} :
    l.lookup k = some v ↔ (k, v) ∈ l := by
  induction l with
  | nil => simp
  | cons p l ih =>
    obtain ⟨kp, vp⟩ := p
    obtain ⟨hp, hl⟩ := List.pairwise_cons.mp h
    rw [lookup_cons, List.mem_cons, Prod.mk.injEq]
    by_cases hk : k = kp
    · have hnot : (k, v) ∉ l := fun hmem => ne_of_gt (hp _ hmem) hk
      rw [if_pos hk]
      simp [hk, hk ▸ hnot, eq_comm]
    · rw [if_neg hk, ih hl]
      simp [hk]

theorem lookup_eq_none_of_forall_ne {l : List (K × V)} {k : K} (h : ∀ x ∈ l, x.1 ≠ k) :
    l.lookup k = none := by
  rw [List.lookup_eq_none_iff]
  intro x hx
  simpa using (h x hx).symm

/-- Keys above `k` are not touched. -/
theorem insert_append_left {k : K} (v : V) (l : List (K × V)) {r : List (K × V)}
    (h : ∀ x ∈ r, k < x.1) : insert k v (l ++ r) = insert k v l ++ r := by
  induction l with
  | nil =>
    cases r with
    | nil => rfl
    | cons p r =>
      have hp := h p (by simp)
      simp [insert, not_lt.mpr hp.le, ne_of_gt hp]
  | cons p l ih =>
    rw [List.cons_append, insert, insert, ih]
    split_ifs <;> rfl

/-- Keys below `k` are not touched. -/
theorem insert_append_right {k : K} (v : V) {l : List (K × V)} (r : List (K × V))
    (h : ∀ x ∈ l, x.1 < k) : insert k v (l ++ r) = l ++ insert k v r := by
  induction l with
  | nil => rfl
  | cons p l ih =>
    rw [List.cons_append, insert, if_pos (h p (by simp)), ih fun x hx => h x (by simp [hx])]
    rfl

/-! ## What is made of the values -/

/-- The lookups of a part of the keys. -/
theorem lookup_filter (p : K → Bool) (l : List (K × V)) (k : K) :
    (l.filter fun e => p e.1).lookup k = if p k then l.lookup k else none := by
  induction l with
  | nil => simp
  | cons e l ih =>
    obtain ⟨k', v⟩ := e
    rw [lookup_cons]
    rw [List.filter_cons]
    by_cases hk : k = k'
    · subst hk
      rw [if_pos rfl]
      by_cases hp : p k = true
      · rw [if_pos hp, if_pos hp, lookup_cons, if_pos rfl]
      · rw [if_neg hp, if_neg hp, ih, if_neg hp]
    · rw [if_neg hk, ← ih]
      by_cases hp : p k' = true
      · rw [if_pos hp, lookup_cons, if_neg hk]
      · rw [if_neg hp]

section Values

variable {W : Type*} (f : V → Option W)

/-- What is made of the values, under the same keys. -/
def keyed (l : List (K × V)) : List (K × W) := l.filterMap fun e => (f e.2).map fun w => (e.1, w)

omit [LinearOrder K] in
theorem map_snd_keyed (l : List (K × V)) : (keyed f l).map Prod.snd = l.filterMap fun e => f e.2 := by
  rw [keyed, List.map_filterMap]
  refine List.filterMap_congr fun e _ => ?_
  cases f e.2 <;> rfl

variable {l : List (K × V)}

theorem Sorted.keyed (hl : Sorted l) : Sorted (keyed f l) := by
  refine List.Pairwise.filterMap _ (fun a a' hlt b hb b' hb' => ?_) hl
  obtain ⟨w, -, rfl⟩ := Option.map_eq_some_iff.mp hb
  obtain ⟨w', -, rfl⟩ := Option.map_eq_some_iff.mp hb'
  exact hlt

theorem mem_keyed (hl : Sorted l) {k : K} {w : W} :
    (k, w) ∈ SortedAssoc.keyed f l ↔ (l.lookup k).bind f = some w := by
  simp only [SortedAssoc.keyed, List.mem_filterMap, Option.map_eq_some_iff, Prod.mk.injEq,
    Option.bind_eq_some_iff, lookup_eq_some_iff hl]
  constructor
  · rintro ⟨e, he, w', hw, rfl, rfl⟩
    exact ⟨e.2, he, hw⟩
  · rintro ⟨u, hu, hw⟩
    exact ⟨(k, u), hu, w, hw, rfl, rfl⟩

end Values

/-- Two lists in key order under which every lookup gives the same give the same values, in the
same order. -/
theorem filterMap_eq {W : Type*} {l l' : List (K × V)} (hl : Sorted l) (hl' : Sorted l')
    {f g : V → Option W} (h : ∀ k, (l.lookup k).bind f = (l'.lookup k).bind g) :
    (l.filterMap fun e => f e.2) = l'.filterMap fun e => g e.2 := by
  have : Std.Irrefl fun a b : K × W => a.1 < b.1 := ⟨fun a => lt_irrefl a.1⟩
  have : Std.Asymm fun a b : K × W => a.1 < b.1 := ⟨fun a b => lt_asymm⟩
  rw [← map_snd_keyed f l, ← map_snd_keyed g l']
  refine congrArg _ (List.Pairwise.eq_of_mem_iff (hl.keyed f) (hl'.keyed g) ?_)
  rintro ⟨k, w⟩
  rw [mem_keyed f hl, mem_keyed g hl', h]

end SortedAssoc

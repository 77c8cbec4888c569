import Mathlib.Data.List.Nodup
import Mathlib.Logic.Function.Basic

/-!
# Tries over a finite alphabet

A trie whose nodes have one child for every letter. `collect` walks a trie in depth-first
order along a list of the letters.

## Main definitions

* `LetterTrie.insert`, `LetterTrie.find`, `LetterTrie.subtree`, `LetterTrie.collect`.
* `LetterTrie.words` — the words of a trie, in the order of a walk.

## Main results

* `find_insert`, `find_subtree` — lookups after an insertion and below a prefix.
* `mem_collect`, `nodup_collect` — what a walk collects.
* `collect_eq_words`, `pairwise_words` — a walk takes the words in the order of their letters.
-/

/-- A missing node, or a node with the value of its word, if it has one. -/
inductive LetterTrie (ι α : Type*)
  | null
  | node (value : Option α) (child : ι → LetterTrie ι α)

namespace LetterTrie

variable {ι α : Type*}

/-- Whether a node is missing. -/
def isNull : LetterTrie ι α → Bool
  | null => true
  | node _ _ => false

theorem eq_null_of_isNull {t : LetterTrie ι α} (h : t.isNull = true) : t = null := by
  cases t with
  | null => rfl
  | node value child => exact absurd h (by simp [isNull])

/-- The value of a word. -/
def find : LetterTrie ι α → List ι → Option α
  | null, _ => none
  | node value _, [] => value
  | node _ child, i :: w => (child i).find w

/-- Store a value under a word; nodes on the way are made as needed. -/
def insert [DecidableEq ι] (v : α) : List ι → LetterTrie ι α → LetterTrie ι α
  | [], null => node (some v) fun _ => null
  | [], node _ child => node (some v) child
  | i :: w, null => node none (Function.update (fun _ => null) i (insert v w null))
  | i :: w, node value child => node value (Function.update child i (insert v w (child i)))

/-- The node of a prefix. -/
def subtree : LetterTrie ι α → List ι → LetterTrie ι α
  | t, [] => t
  | null, _ :: _ => null
  | node _ child, i :: w => (child i).subtree w

/-- The values of all words, the value of a node before those below it. -/
def collect (letters : List ι) : LetterTrie ι α → List α
  | null => []
  | node value child => value.toList ++ letters.flatMap fun i => (child i).collect letters

@[simp] theorem find_null (w : List ι) : (null : LetterTrie ι α).find w = none := rfl

@[simp] theorem collect_null (letters : List ι) :
    (null : LetterTrie ι α).collect letters = [] := rfl

theorem find_insert [DecidableEq ι] (v : α) (w w' : List ι) (t : LetterTrie ι α) :
    (t.insert v w).find w' = if w' = w then some v else t.find w' := by
  induction w generalizing w' t with
  | nil => cases t <;> cases w' <;> simp [insert, find]
  | cons i w ih =>
    cases t with
    | null =>
      cases w' with
      | nil => simp [insert, find]
      | cons j w' =>
        by_cases hij : j = i
        · subst hij
          simp [insert, find, ih]
        · simp [insert, find, hij]
    | node value child =>
      cases w' with
      | nil => simp [insert, find]
      | cons j w' =>
        by_cases hij : j = i
        · subst hij
          simp [insert, find, ih]
        · simp [insert, find, hij]

theorem find_subtree (t : LetterTrie ι α) (p w : List ι) :
    (t.subtree p).find w = t.find (p ++ w) := by
  induction p generalizing t with
  | nil => cases t <;> rfl
  | cons i p ih =>
    cases t with
    | null => rfl
    | node value child => exact ih (child i)

theorem mem_collect {letters : List ι} (hall : ∀ i, i ∈ letters) {t : LetterTrie ι α} {v : α} :
    v ∈ t.collect letters ↔ ∃ w, t.find w = some v := by
  induction t with
  | null => simp
  | node value child ih =>
    simp only [collect, List.mem_append, Option.mem_toList, List.mem_flatMap]
    constructor
    · rintro (h | ⟨i, -, h⟩)
      · exact ⟨[], h⟩
      · obtain ⟨w, hw⟩ := (ih i).mp h
        exact ⟨i :: w, hw⟩
    · rintro ⟨_ | ⟨i, w⟩, h⟩
      · exact .inl h
      · exact .inr ⟨i, hall i, (ih i).mpr ⟨w, h⟩⟩

/-- Where no two words have the same value, a walk meets every value once. -/
theorem nodup_collect {letters : List ι} (hall : ∀ i, i ∈ letters) (hletters : letters.Nodup)
    {t : LetterTrie ι α}
    (hinj : ∀ w w' v, t.find w = some v → t.find w' = some v → w = w') :
    (t.collect letters).Nodup := by
  induction t with
  | null => simp
  | node value child ih =>
    have hchild : ∀ i w j w' v, (child i).find w = some v → (child j).find w' = some v →
        i = j ∧ w = w' := fun i w j w' v h h' => by
      simpa using hinj (i :: w) (j :: w') v h h'
    rw [collect, List.nodup_append]
    refine ⟨?_, ?_, ?_⟩
    · cases value <;> simp
    · rw [List.nodup_flatMap]
      refine ⟨fun i _ => ih i fun w w' v h h' => (hchild i w i w' v h h').2, ?_⟩
      refine hletters.imp fun {i j} hij v hi hj => hij ?_
      obtain ⟨w, hw⟩ := (mem_collect hall).mp hi
      obtain ⟨w', hw'⟩ := (mem_collect hall).mp hj
      exact (hchild i w j w' v hw hw').1
    · intro v hv v' hv' heq
      subst heq
      obtain ⟨i, -, hi⟩ := List.mem_flatMap.mp hv'
      obtain ⟨w, hw⟩ := (mem_collect hall).mp hi
      have hroot : value = some v := by simpa using hv
      exact absurd (hinj [] (i :: w) v hroot hw) (by simp)

/-! ## The order of a walk -/

/-- The words with a value, each before those that it begins. -/
def words (letters : List ι) : LetterTrie ι α → List (List ι)
  | null => []
  | node value child =>
    (value.toList.map fun _ => []) ++
      letters.flatMap fun i => ((child i).words letters).map (i :: ·)

theorem mem_words {letters : List ι} (hall : ∀ i, i ∈ letters) {t : LetterTrie ι α} {w : List ι} :
    w ∈ t.words letters ↔ ∃ v, t.find w = some v := by
  induction t generalizing w with
  | null => simp [words]
  | node value child ih =>
    simp only [words, List.mem_append, List.mem_map, Option.mem_toList, List.mem_flatMap]
    cases w with
    | nil =>
      constructor
      · rintro (⟨v, hv, -⟩ | ⟨i, -, w, -, h⟩)
        · exact ⟨v, hv⟩
        · exact absurd h (by simp)
      · rintro ⟨v, hv⟩
        exact .inl ⟨v, hv, rfl⟩
    | cons i w =>
      constructor
      · rintro (⟨v, -, h⟩ | ⟨j, -, w', hw', h⟩)
        · exact absurd h (by simp)
        · obtain ⟨rfl, rfl⟩ := List.cons.inj h
          exact (ih j).mp hw'
      · intro h
        exact .inr ⟨i, hall i, w, (ih i).mpr h, rfl⟩

/-- A walk takes the values of the words. -/
theorem collect_eq_words (letters : List ι) (t : LetterTrie ι α) :
    t.collect letters = (t.words letters).filterMap t.find := by
  induction t with
  | null => rfl
  | node value child ih =>
    have hroot : value.toList =
        (value.toList.map fun _ => ([] : List ι)).filterMap (node value child).find := by
      cases value <;> rfl
    rw [collect, words, List.filterMap_append, ← hroot, List.filterMap_flatMap]
    congr 2
    funext i
    rw [ih i, List.filterMap_map]
    rfl

/-- The words stand in the order of their letters. -/
theorem pairwise_words {r : ι → ι → Prop} {letters : List ι} (hletters : letters.Pairwise r)
    (t : LetterTrie ι α) : (t.words letters).Pairwise (List.Lex r) := by
  induction t with
  | null => exact List.Pairwise.nil
  | node value child ih =>
    rw [words, List.pairwise_append]
    refine ⟨?_, ?_, ?_⟩
    · cases value <;> simp
    · rw [List.pairwise_flatMap]
      refine ⟨fun i _ => ?_, hletters.imp fun {i j} hij w hw w' hw' => ?_⟩
      · exact List.pairwise_map.mpr ((ih i).imp fun h => List.Lex.cons h)
      · obtain ⟨u, -, rfl⟩ := List.mem_map.mp hw
        obtain ⟨u', -, rfl⟩ := List.mem_map.mp hw'
        exact List.Lex.rel hij
    · intro w hw w' hw'
      obtain ⟨-, -, rfl⟩ := List.mem_map.mp hw
      obtain ⟨i, -, hi⟩ := List.mem_flatMap.mp hw'
      obtain ⟨u, -, rfl⟩ := List.mem_map.mp hi
      exact List.Lex.nil

end LetterTrie

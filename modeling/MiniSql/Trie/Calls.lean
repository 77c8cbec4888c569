import Mathlib.Data.List.Lex
import MiniSql.Trie

/-!
# Any calls of the trie

After any insertions, accepted or not, the trie is a map from words to the last number that was
inserted for each, and a prefix search takes the words of the map in the order of a dictionary.

## Main definitions

* `insertAll` — the insertions of a list, the rejected ones without effect.
* `lastRow` — the map: the last number that was accepted for a word.

## Main results

* `find_insertAll` — what the trie holds.
* `trieSearchExact_insertAll`, `trieSearchPrefix_insertAll` — the two searches.
* `trie_search` — both, after any insertions.
-/

namespace MiniSql
open CText

/-- The insertions of a list. One that is rejected changes nothing. -/
def insertAll : List (CStr × ℤ) → Trie → Trie
  | [], t => t
  | (word, row) :: calls, t => insertAll calls ((trieInsert t word row).getD t)

/-- An insertion that is accepted, for a word. -/
def AcceptedFor (word : CStr) (call : CStr × ℤ) : Prop :=
  call.1 = word ∧ isAsciiLowercaseWord word = true ∧ 0 ≤ call.2

instance (word : CStr) : DecidablePred (AcceptedFor word) := fun call =>
  inferInstanceAs (Decidable (call.1 = word ∧ isAsciiLowercaseWord word = true ∧ 0 ≤ call.2))

/-- The last number that was accepted for a word. -/
def lastRow (calls : List (CStr × ℤ)) (word : CStr) : Option ℤ :=
  ((calls.filter fun call => AcceptedFor word call).getLast?).map Prod.snd

theorem lastRow_cons (call : CStr × ℤ) (calls : List (CStr × ℤ)) (word : CStr) :
    lastRow (call :: calls) word =
      (lastRow calls word).or (if AcceptedFor word call then some call.2 else none) := by
  unfold lastRow
  by_cases h : AcceptedFor word call
  · rw [List.filter_cons_of_pos (by simpa using h), List.getLast?_cons, if_pos h]
    cases (calls.filter fun call => AcceptedFor word call).getLast? <;> rfl
  · rw [List.filter_cons_of_neg (by simpa using h), if_neg h, Option.or_none]

/-- The words of the map are words of lower-case letters. -/
theorem valid_of_lastRow {calls : List (CStr × ℤ)} {word : CStr} {v : ℤ}
    (h : lastRow calls word = some v) : isAsciiLowercaseWord word = true := by
  obtain ⟨call, hlast, -⟩ := Option.map_eq_some_iff.mp h
  have haccepted := (List.mem_filter.mp (List.mem_of_getLast? hlast)).2
  exact (of_decide_eq_true haccepted).2.1

/-! ## Letters and their places in the alphabet -/

/-- The letter at a place of the alphabet. -/
def letterAt (i : Fin 26) : Char := Char.ofNat (97 + i)

theorem letterAt_range (i : Fin 26) : 'a' ≤ letterAt i ∧ letterAt i ≤ 'z' := by
  revert i
  decide

theorem charIndex_letterAt (i : Fin 26) : charIndex (letterAt i) = i := by
  revert i
  decide

theorem letterAt_charIndex {c : Char} (hc : 'a' ≤ c ∧ c ≤ 'z') : letterAt (charIndex c) = c :=
  charIndex_inj (letterAt_range _) hc (charIndex_letterAt _)

theorem letterAt_lt {i j : Fin 26} (h : i < j) : letterAt i < letterAt j := by
  revert i j
  decide

theorem map_letterAt {word : CStr} (h : isAsciiLowercaseWord word = true) :
    (word.map charIndex).map letterAt = word := by
  rw [List.map_map]
  refine (List.map_congr_left fun c hc => ?_).trans (List.map_id word)
  exact letterAt_charIndex (letters_of_valid h c hc)

theorem map_charIndex (u : List (Fin 26)) : (u.map letterAt).map charIndex = u := by
  rw [List.map_map]
  refine (List.map_congr_left fun i _ => ?_).trans (List.map_id u)
  exact charIndex_letterAt i

/-! ## What the trie holds -/

theorem find_trieInsert (t : Trie) (word : CStr) (row : ℤ) (u : List (Fin 26)) :
    ((trieInsert t word row).getD t).find u =
      if AcceptedFor (u.map letterAt) (word, row) then some row else t.find u := by
  unfold trieInsert
  split
  · rename_i hbad
    rw [if_neg, Option.getD_none]
    rintro ⟨rfl, hvalid, hrow⟩
    rcases hbad with hneg | hinvalid
    · exact absurd hrow (by omega)
    · exact absurd hvalid (by simp [hinvalid])
  · rename_i hok
    obtain ⟨hrow, hvalid⟩ := not_or.mp hok
    rw [Option.getD_some, LetterTrie.find_insert]
    refine if_congr ?_ rfl rfl
    constructor
    · rintro rfl
      rw [map_letterAt (by simpa using hvalid)]
      exact ⟨rfl, by simpa using hvalid, by omega⟩
    · rintro ⟨rfl, -, -⟩
      exact (map_charIndex u).symm

/-- **The trie holds the last number that was accepted for each word.** -/
theorem find_insertAll (calls : List (CStr × ℤ)) (t : Trie) (u : List (Fin 26)) :
    (insertAll calls t).find u = (lastRow calls (u.map letterAt)).or (t.find u) := by
  induction calls generalizing t with
  | nil => rfl
  | cons call calls ih =>
    rw [insertAll, ih, find_trieInsert, lastRow_cons, Option.or_assoc]
    congr 1
    split <;> rfl

theorem find_insertAll_create (calls : List (CStr × ℤ)) (u : List (Fin 26)) :
    (insertAll calls trieCreate).find u = lastRow calls (u.map letterAt) := by
  rw [find_insertAll, find_trieCreate, Option.or_none]

/-! ## The searches -/

/-- An exact search finds the number of the word, and `-1` where there is none. -/
theorem trieSearchExact_insertAll (calls : List (CStr × ℤ)) (word : CStr) :
    trieSearchExact (insertAll calls trieCreate) word = (lastRow calls word).getD (-1) := by
  unfold trieSearchExact
  split
  · rename_i hinvalid
    cases hrow : lastRow calls word with
    | none => rfl
    | some v =>
      rw [valid_of_lastRow hrow] at hinvalid
      exact absurd hinvalid (by simp)
  · rename_i hvalid
    rw [find_insertAll_create, map_letterAt (by simpa using hvalid)]

/-- The words of the map that start with a prefix, in the order of a dictionary. -/
def wordsFrom (calls : List (CStr × ℤ)) (pre : CStr) : List CStr :=
  (((insertAll calls trieCreate).subtree (pre.map charIndex)).words (List.finRange 26)).map
    fun u => pre ++ u.map letterAt

theorem mem_wordsFrom {calls : List (CStr × ℤ)} {pre : CStr}
    (hpre : isAsciiLowercaseWord pre = true) {w : CStr} :
    w ∈ wordsFrom calls pre ↔ (lastRow calls w).isSome = true ∧ pre <+: w := by
  have hfind : ∀ u, ((insertAll calls trieCreate).subtree (pre.map charIndex)).find u =
      lastRow calls (pre ++ u.map letterAt) := by
    intro u
    rw [LetterTrie.find_subtree, find_insertAll_create, List.map_append, map_letterAt hpre]
  rw [wordsFrom, List.mem_map]
  constructor
  · rintro ⟨u, hu, rfl⟩
    obtain ⟨v, hv⟩ := (LetterTrie.mem_words List.mem_finRange).mp hu
    rw [hfind] at hv
    exact ⟨by rw [hv]; rfl, List.prefix_append _ _⟩
  · rintro ⟨hsome, rest, rfl⟩
    obtain ⟨v, hv⟩ := Option.isSome_iff_exists.mp hsome
    have hrest : (rest.map charIndex).map letterAt = rest := by
      have hall := map_letterAt (valid_of_lastRow hv)
      rw [List.map_append, List.map_append, map_letterAt hpre] at hall
      exact List.append_cancel_left hall
    refine ⟨rest.map charIndex, (LetterTrie.mem_words List.mem_finRange).mpr ⟨v, ?_⟩, by rw [hrest]⟩
    rw [hfind, hrest, hv]

theorem pairwise_wordsFrom (calls : List (CStr × ℤ)) (pre : CStr) :
    (wordsFrom calls pre).Pairwise (· < ·) := by
  refine List.pairwise_map.mpr ?_
  have hwords := LetterTrie.pairwise_words (List.pairwise_lt_finRange 26)
    ((insertAll calls trieCreate).subtree (pre.map charIndex))
  refine hwords.imp fun {u u'} hlt => ?_
  have hletters : List.Lex (· < ·) (u.map letterAt) (u'.map letterAt) := by
    induction hlt with
    | nil => exact List.Lex.nil
    | cons _ ih => exact List.Lex.cons ih
    | rel h => exact List.Lex.rel (letterAt_lt h)
  exact List.Lex.append_left _ hletters pre

/-- A prefix search finds the numbers of the words that start with the prefix. -/
theorem trieSearchPrefix_insertAll (calls : List (CStr × ℤ)) {pre : CStr}
    (hpre : isAsciiLowercaseWord pre = true) (maxOut : ℕ) :
    trieSearchPrefix (insertAll calls trieCreate) pre maxOut =
      ((wordsFrom calls pre).filterMap (lastRow calls)).take maxOut := by
  rw [trieSearchPrefix_eq hpre, LetterTrie.collect_eq_words, wordsFrom, List.filterMap_map]
  congr 2
  funext u
  rw [LetterTrie.find_subtree, find_insertAll_create, List.map_append, map_letterAt hpre]
  rfl

/-- **The trie is a map from words to numbers**: an exact search returns the last number that was
accepted for a word, or `-1`. A prefix search returns the numbers of the words that start with the
prefix, in the order of a dictionary, up to the number of them that was asked for. -/
theorem trie_search (calls : List (CStr × ℤ)) :
    (∀ w, trieSearchExact (insertAll calls trieCreate) w = (lastRow calls w).getD (-1)) ∧
      ∀ pre, isAsciiLowercaseWord pre = true → ∃ words : List CStr, words.Pairwise (· < ·) ∧
        (∀ w, w ∈ words ↔ (lastRow calls w).isSome = true ∧ pre <+: w) ∧
        ∀ maxOut, trieSearchPrefix (insertAll calls trieCreate) pre maxOut =
          (words.filterMap (lastRow calls)).take maxOut := by
  refine ⟨trieSearchExact_insertAll calls, fun pre hpre => ?_⟩
  exact ⟨wordsFrom calls pre, pairwise_wordsFrom calls pre, fun w => mem_wordsFrom hpre,
    trieSearchPrefix_insertAll calls hpre⟩

/-- `car` has a new number, `Bat` and `bat` under `-2` are rejected. -/
def carCalls : List (CStr × ℤ) :=
  [("car".toList, 1), ("cat".toList, 2), ("ca".toList, 3), ("Bat".toList, 4), ("bat".toList, -2),
    ("car".toList, 5)]

theorem trie_search_car :
    trieSearchExact (insertAll carCalls trieCreate) "car".toList = 5 ∧
      trieSearchExact (insertAll carCalls trieCreate) "bat".toList = -1 ∧
      trieSearchPrefix (insertAll carCalls trieCreate) "ca".toList 2 = [3, 5] ∧
      ∃ words : List CStr, words.Pairwise (· < ·) ∧
        (∀ w, w ∈ words ↔ (lastRow carCalls w).isSome = true ∧ "ca".toList <+: w) ∧
        (words.filterMap (lastRow carCalls)).take 2 = [3, 5] := by
  obtain ⟨hexact, hsearch⟩ := trie_search carCalls
  obtain ⟨words, hsorted, hmem, hfound⟩ := hsearch "ca".toList (by decide +kernel)
  have hca : trieSearchPrefix (insertAll carCalls trieCreate) "ca".toList 2 = [3, 5] := by
    decide +kernel
  refine ⟨(hexact _).trans (by decide +kernel), (hexact _).trans (by decide +kernel), hca, words,
    hsorted, hmem, (hfound 2).symm.trans hca⟩

end MiniSql

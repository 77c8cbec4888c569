import MiniSql.Lib.LetterTrie
import MiniSql.Types

/-!
# The trie of the dictionary

`trie.c`: words of lower-case letters, each with a row number. A later insertion of the same
word replaces its number.

## Main definitions

* `trieCreate`, `trieInsert`, `trieSearchExact`, `trieSearchPrefix`.

## Main results

* `find_insertWords` — after the words of a list were inserted, every word has the number of
  its last occurrence.
* `collectPrefixRows_eq` — the walk that ends when enough is found.
* `trieSearchPrefix_spec` — what a prefix search finds.
-/

namespace MiniSql
open CText

/-- A trie of words over `a`, ..., `z`. A node without a word has the row number `-1` in the
source. -/
abbrev Trie := LetterTrie (Fin 26) ℤ

/-- `trie_create`. -/
def trieCreate : Trie := .node none fun _ => .null

/-- `char_index`, for the letters that `word_is_valid` lets through. -/
def charIndex (c : Char) : Fin 26 := Fin.ofNat 26 (c.toNat - 97)

/-- `trie_insert`; `is_ascii_lowercase_word` is `word_is_valid`. -/
def trieInsert (t : Trie) (word : CStr) (rowIndex : ℤ) : Option Trie :=
  if rowIndex < 0 ∨ isAsciiLowercaseWord word = false then none
  else some (t.insert rowIndex (word.map charIndex))

/-- `trie_search_exact`. -/
def trieSearchExact (t : Trie) (word : CStr) : ℤ :=
  if isAsciiLowercaseWord word = false then -1 else (t.find (word.map charIndex)).getD (-1)

/-- `collect_prefix_rows`: whether the walk is over before its end, and the numbers found. -/
def collectPrefixRows (maxOut : ℕ) : Trie → List ℤ → Bool × List ℤ
  | .null, out => (true, out)
  | .node rowIndex child, out =>
    if maxOut ≤ out.length then (true, out)
    else if rowIndex.isSome = true ∧ maxOut ≤ (out ++ rowIndex.toList).length then
      (true, out ++ rowIndex.toList)
    else
      (List.finRange 26).foldl
        (fun walk i =>
          if walk.1 = true ∨ (child i).isNull = true then walk
          else collectPrefixRows maxOut (child i) walk.2)
        (false, out ++ rowIndex.toList)

/-- `trie_search_prefix`. -/
def trieSearchPrefix (t : Trie) (pre : CStr) (maxOut : ℕ) : List ℤ :=
  if maxOut = 0 ∨ isAsciiLowercaseWord pre = false then []
  else (collectPrefixRows maxOut (t.subtree (pre.map charIndex)) []).2

/-- Insert the words of a list, the first under number `row`. -/
def insertWords : List CStr → ℤ → Trie → Option Trie
  | [], _, t => some t
  | word :: words, row, t => (trieInsert t word row).bind (insertWords words (row + 1))

/-! ## What the trie holds -/

theorem charIndex_inj {c d : Char} (hc : 'a' ≤ c ∧ c ≤ 'z') (hd : 'a' ≤ d ∧ d ≤ 'z')
    (h : charIndex c = charIndex d) : c = d := by
  have hrange : ∀ {x : Char}, 'a' ≤ x ∧ x ≤ 'z' → 97 ≤ x.toNat ∧ x.toNat ≤ 122 := fun hx => hx
  obtain ⟨hc₁, hc₂⟩ := hrange hc
  obtain ⟨hd₁, hd₂⟩ := hrange hd
  have hval := congrArg Fin.val h
  simp only [charIndex, Fin.ofNat] at hval
  refine Char.ext (UInt32.ext ?_)
  change c.toNat = d.toNat
  omega

/-- The last position of an element. -/
def LastAt {β : Type*} (l : List β) (b : β) (i : ℕ) : Prop :=
  l[i]? = some b ∧ ∀ j, i < j → l[j]? ≠ some b

theorem LastAt.mem {β : Type*} {l : List β} {b : β} {i : ℕ} (h : LastAt l b i) : b ∈ l :=
  List.mem_of_getElem? h.1

theorem lastAt_cons {β : Type*} {a b : β} {l : List β} {i : ℕ} :
    LastAt (a :: l) b i ↔ (i = 0 ∧ a = b ∧ b ∉ l) ∨ ∃ j, i = j + 1 ∧ LastAt l b j := by
  cases i with
  | zero =>
    have hzero : ¬ ∃ j, 0 = j + 1 ∧ LastAt l b j := by simp
    rw [or_iff_left hzero]
    simp only [true_and, LastAt, List.getElem?_cons_zero, Option.some.injEq, List.mem_iff_getElem?]
    refine and_congr_right fun _ => ⟨?_, ?_⟩
    · rintro h ⟨j, hj⟩
      exact h (j + 1) (by omega) hj
    · rintro h (_ | j) hj
      · exact absurd hj (by omega)
      · exact fun hj => h ⟨j, hj⟩
  | succ i =>
    simp only [LastAt, List.getElem?_cons_succ, Nat.add_eq_zero_iff, Nat.one_ne_zero, and_false,
      false_and, false_or, Nat.add_right_cancel_iff, exists_eq_left']
    refine and_congr_right fun _ => ⟨?_, ?_⟩
    · exact fun h j hj => h (j + 1) (by omega)
    · rintro h (_ | j) hj
      · exact absurd hj (by omega)
      · exact h j (by omega)

/-- The letters of the words of a list. -/
abbrev letterWords (words : List CStr) : List (List (Fin 26)) := words.map (·.map charIndex)

/-- **After the words of a list were inserted, a word has the number of its last occurrence.** -/
theorem find_insertWords {words : List CStr} {row : ℤ} {t t' : Trie}
    (h : insertWords words row t = some t') (u : List (Fin 26)) (v : ℤ) :
    t'.find u = some v ↔
      (∃ i : ℕ, LastAt (letterWords words) u i ∧ v = row + i) ∨
        (u ∉ letterWords words ∧ t.find u = some v) := by
  induction words generalizing row t with
  | nil =>
    obtain rfl : t = t' := Option.some.inj h
    simp [LastAt]
  | cons word words ih =>
    obtain ⟨t₁, ht₁, h⟩ := Option.bind_eq_some_iff.mp h
    have hfind : ∀ u, t₁.find u = if u = word.map charIndex then some row else t.find u := by
      intro u
      unfold trieInsert at ht₁
      split_ifs at ht₁
      rw [← Option.some.inj ht₁, LetterTrie.find_insert]
    rw [ih h, hfind]
    simp only [List.map_cons, lastAt_cons, List.mem_cons, not_or]
    by_cases hu : u = word.map charIndex
    · subst hu
      simp only [if_true, Option.some.injEq, not_true, false_and, or_false, true_and]
      constructor
      · rintro (⟨i, hi, rfl⟩ | ⟨hnot, rfl⟩)
        · exact ⟨i + 1, .inr ⟨i, rfl, hi⟩, by push_cast; ring⟩
        · exact ⟨0, .inl ⟨rfl, hnot⟩, by simp⟩
      · rintro ⟨i, ⟨rfl, hnot⟩ | ⟨j, rfl, hj⟩, rfl⟩
        · exact .inr ⟨hnot, by simp⟩
        · exact .inl ⟨j, hj, by push_cast; ring⟩
    · have hu' : ¬ word.map charIndex = u := fun h => hu h.symm
      simp only [hu, hu', if_false, false_and, and_false, false_or, not_false_eq_true, true_and]
      refine or_congr ⟨?_, ?_⟩ Iff.rfl
      · rintro ⟨i, hi, rfl⟩
        exact ⟨i + 1, ⟨i, rfl, hi⟩, by push_cast; ring⟩
      · rintro ⟨i, ⟨j, rfl, hj⟩, rfl⟩
        exact ⟨j, hj, by push_cast; ring⟩

theorem valid_of_insertWords {words : List CStr} {row : ℤ} {t t' : Trie}
    (h : insertWords words row t = some t') : ∀ w ∈ words, isAsciiLowercaseWord w = true := by
  induction words generalizing row t with
  | nil => simp
  | cons word words ih =>
    obtain ⟨t₁, ht₁, h⟩ := Option.bind_eq_some_iff.mp h
    rintro w (_ | ⟨_, hw⟩)
    · unfold trieInsert at ht₁
      split_ifs at ht₁ with hbad
      simpa using (not_or.mp hbad).2
    · exact ih h w hw

/-- Words of lower-case letters can be inserted, and no others. -/
theorem insertWords_isSome {words : List CStr} {row : ℤ} (hrow : 0 ≤ row) {t : Trie} :
    (insertWords words row t).isSome = true ↔ ∀ w ∈ words, isAsciiLowercaseWord w = true := by
  constructor
  · intro h
    obtain ⟨t', ht'⟩ := Option.isSome_iff_exists.mp h
    exact valid_of_insertWords ht'
  · intro h
    induction words generalizing row t with
    | nil => rfl
    | cons word words ih =>
      have hinsert : trieInsert t word row = some (t.insert row (word.map charIndex)) := by
        rw [trieInsert, if_neg]
        rw [h word (by simp)]
        simpa using hrow
      rw [insertWords, hinsert, Option.bind_some]
      exact ih (by omega) fun w hw => h w (by simp [hw])

/-! ## A prefix search -/

/-- A walk over the children, from what was found before. -/
theorem foldl_children {maxOut : ℕ} {child : Fin 26 → Trie}
    (hchild : ∀ i out, (child i).isNull = false → out.length ≤ maxOut →
      collectPrefixRows maxOut (child i) out =
        (decide (maxOut ≤ (out ++ (child i).collect (List.finRange 26)).length),
          (out ++ (child i).collect (List.finRange 26)).take maxOut))
    (letters : List (Fin 26)) {all : List ℤ} :
    letters.foldl
        (fun walk i =>
          if walk.1 = true ∨ (child i).isNull = true then walk
          else collectPrefixRows maxOut (child i) walk.2)
        (decide (maxOut ≤ all.length), all.take maxOut) =
      (decide (maxOut ≤ (all ++ letters.flatMap fun i => (child i).collect (List.finRange 26)).length),
        (all ++ letters.flatMap fun i => (child i).collect (List.finRange 26)).take maxOut) := by
  induction letters generalizing all with
  | nil => simp
  | cons i letters ih =>
    rw [List.foldl_cons, List.flatMap_cons, ← List.append_assoc, ← ih]
    congr 1
    by_cases hfull : maxOut ≤ all.length
    · -- the walk is over
      have htake : (all ++ (child i).collect (List.finRange 26)).take maxOut = all.take maxOut :=
        List.take_append_of_le_length hfull
      have hmore : maxOut ≤ (all ++ (child i).collect (List.finRange 26)).length := by
        rw [List.length_append]
        omega
      rw [htake, decide_eq_true hfull, decide_eq_true hmore, if_pos (.inl rfl)]
    · rw [decide_eq_false hfull, List.take_of_length_le (by omega)]
      by_cases hnull : (child i).isNull = true
      · rw [if_pos (.inr hnull), LetterTrie.eq_null_of_isNull hnull, LetterTrie.collect_null,
          List.append_nil, decide_eq_false hfull, List.take_of_length_le (by omega)]
      · rw [if_neg (by simp [hnull])]
        exact hchild i all (by simpa using hnull) (by omega)

/-- **The walk that ends early finds the first numbers of the whole walk**, and it is over early
when there are enough of them. -/
theorem collectPrefixRows_eq {maxOut : ℕ} {t : Trie} {out : List ℤ} (hnull : t.isNull = false)
    (hout : out.length ≤ maxOut) :
    collectPrefixRows maxOut t out =
      (decide (maxOut ≤ (out ++ t.collect (List.finRange 26)).length),
        (out ++ t.collect (List.finRange 26)).take maxOut) := by
  induction t generalizing out with
  | null => exact absurd hnull (by simp [LetterTrie.isNull])
  | node rowIndex child ih =>
    rw [collectPrefixRows, LetterTrie.collect, ← List.append_assoc]
    by_cases hfull : maxOut ≤ out.length
    · have hmore : maxOut ≤ (out ++ rowIndex.toList ++ (List.finRange 26).flatMap fun i =>
          (child i).collect (List.finRange 26)).length := by
        rw [List.length_append, List.length_append]
        omega
      rw [if_pos hfull, decide_eq_true hmore, List.append_assoc,
        List.take_append_of_le_length hfull, List.take_of_length_le hout]
    rw [if_neg hfull]
    have hlast : (out ++ rowIndex.toList).length ≤ maxOut := by
      rw [List.length_append]
      have := Option.length_toList_le (o := rowIndex)
      omega
    by_cases henough : maxOut ≤ (out ++ rowIndex.toList).length
    · -- the number of this node is the last one
      have hsome : rowIndex.isSome = true := by
        cases rowIndex with
        | none => exact absurd henough (by simpa using hfull)
        | some v => rfl
      have hmore : maxOut ≤ (out ++ rowIndex.toList ++ (List.finRange 26).flatMap fun i =>
          (child i).collect (List.finRange 26)).length := by
        rw [List.length_append]
        omega
      rw [if_pos ⟨hsome, henough⟩, decide_eq_true hmore, List.take_append_of_le_length henough,
        List.take_of_length_le hlast]
    · rw [if_neg (fun h => henough h.2), ← foldl_children (fun i out => ih i), decide_eq_false henough,
        List.take_of_length_le hlast]

/-- A prefix search finds the first numbers below the prefix. -/
theorem trieSearchPrefix_eq {t : Trie} {pre : CStr} (hpre : isAsciiLowercaseWord pre = true)
    (maxOut : ℕ) :
    trieSearchPrefix t pre maxOut =
      ((t.subtree (pre.map charIndex)).collect (List.finRange 26)).take maxOut := by
  unfold trieSearchPrefix
  by_cases hzero : maxOut = 0
  · rw [if_pos (.inl hzero), hzero, List.take_zero]
  · rw [if_neg (by simp [hzero, hpre])]
    cases hnull : (t.subtree (pre.map charIndex)).isNull with
    | true =>
      rw [LetterTrie.eq_null_of_isNull hnull]
      simp [collectPrefixRows]
    | false => rw [collectPrefixRows_eq hnull (Nat.zero_le _), List.nil_append]

theorem map_charIndex_inj {w w' : CStr} (hw : ∀ c ∈ w, 'a' ≤ c ∧ c ≤ 'z')
    (hw' : ∀ c ∈ w', 'a' ≤ c ∧ c ≤ 'z') (h : w.map charIndex = w'.map charIndex) : w = w' := by
  induction w generalizing w' with
  | nil => simpa [eq_comm] using h
  | cons c w ih =>
    cases w' with
    | nil => simp at h
    | cons d w' =>
      obtain ⟨hcd, hrest⟩ := List.cons.inj h
      rw [charIndex_inj (hw c (by simp)) (hw' d (by simp)) hcd,
        ih (fun x hx => hw x (by simp [hx])) (fun x hx => hw' x (by simp [hx])) hrest]

theorem letters_of_valid {w : CStr} (h : isAsciiLowercaseWord w = true) :
    ∀ c ∈ w, 'a' ≤ c ∧ c ≤ 'z' := by
  simp only [isAsciiLowercaseWord, Bool.and_eq_true, List.all_eq_true, decide_eq_true_eq] at h
  exact h.2

theorem find_trieCreate (u : List (Fin 26)) : trieCreate.find u = none := by cases u <;> rfl

/-- The numbers below a prefix are the last positions of the words with that prefix. -/
theorem lastAt_letterWords {words : List CStr} (hwords : ∀ w ∈ words, isAsciiLowercaseWord w = true)
    {pre : CStr} (hpre : isAsciiLowercaseWord pre = true) {i : ℕ} :
    (∃ u, LastAt (letterWords words) (pre.map charIndex ++ u) i) ↔
      ∃ w, LastAt words w i ∧ pre <+: w := by
  constructor
  · rintro ⟨u, hi, hlast⟩
    rw [List.getElem?_map, Option.map_eq_some_iff] at hi
    obtain ⟨w, hw, hmap⟩ := hi
    refine ⟨w, ⟨hw, fun j hj hj' => hlast j hj ?_⟩, ?_⟩
    · rw [List.getElem?_map, hj', ← hmap]
      rfl
    · obtain ⟨w₁, w₂, rfl, hw₁, -⟩ := List.map_eq_append_iff.mp hmap
      have hletters := letters_of_valid (hwords _ (List.mem_of_getElem? hw))
      have heq := map_charIndex_inj (fun c hc => hletters c (by simp [hc])) (letters_of_valid hpre) hw₁
      exact ⟨w₂, by rw [heq]⟩
  · rintro ⟨w, ⟨hi, hlast⟩, u, rfl⟩
    refine ⟨u.map charIndex, ?_, fun j hj hj' => ?_⟩
    · rw [List.getElem?_map, hi]
      simp
    · rw [List.getElem?_map, Option.map_eq_some_iff] at hj'
      obtain ⟨w', hw', hmap⟩ := hj'
      rw [← List.map_append] at hmap
      have heq := map_charIndex_inj (letters_of_valid (hwords _ (List.mem_of_getElem? hw')))
        (letters_of_valid (hwords _ (List.mem_of_getElem? hi))) hmap
      exact hlast j hj (heq ▸ hw')

/-- **A prefix search that is not cut off finds every last position of a word with the prefix,
once.** -/
theorem trieSearchPrefix_spec {words : List CStr} {t : Trie}
    (h : insertWords words 0 trieCreate = some t) {pre : CStr}
    (hpre : isAsciiLowercaseWord pre = true) {maxOut : ℕ}
    (hmax : (trieSearchPrefix t pre maxOut).length < maxOut) :
    (trieSearchPrefix t pre maxOut).Nodup ∧
      ∀ v, v ∈ trieSearchPrefix t pre maxOut ↔ ∃ (i : ℕ) (w : CStr), v = i ∧ LastAt words w i ∧ pre <+: w := by
  have hwords := valid_of_insertWords h
  have hfind : ∀ u v, t.find u = some v ↔ ∃ i : ℕ, LastAt (letterWords words) u i ∧ v = i := by
    intro u v
    rw [find_insertWords h, find_trieCreate]
    simp
  rw [trieSearchPrefix_eq hpre, List.length_take] at hmax
  rw [trieSearchPrefix_eq hpre]
  rw [List.take_of_length_le (by omega)]
  have hall : ∀ i : Fin 26, i ∈ List.finRange 26 := List.mem_finRange
  refine ⟨LetterTrie.nodup_collect hall (List.nodup_finRange 26) ?_, fun v => ?_⟩
  · intro u u' v hu hu'
    rw [LetterTrie.find_subtree, hfind] at hu hu'
    obtain ⟨i, hi, rfl⟩ := hu
    obtain ⟨j, hj, hij⟩ := hu'
    obtain rfl : i = j := by exact_mod_cast hij
    exact List.append_cancel_left (Option.some.inj (hi.1.symm.trans hj.1))
  · rw [LetterTrie.mem_collect hall]
    simp only [LetterTrie.find_subtree, hfind]
    constructor
    · rintro ⟨u, i, hi, rfl⟩
      obtain ⟨w, hw⟩ := (lastAt_letterWords hwords hpre).mp ⟨u, hi⟩
      exact ⟨i, w, rfl, hw⟩
    · rintro ⟨i, w, rfl, hw⟩
      obtain ⟨u, hu⟩ := (lastAt_letterWords hwords hpre).mpr ⟨w, hw⟩
      exact ⟨u, i, hu, rfl⟩

end MiniSql

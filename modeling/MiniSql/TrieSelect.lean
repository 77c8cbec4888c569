import MiniSql.EngineReady
import MiniSql.Extremes
import MiniSql.RangeSelect

/-!
# Prefix searches in the dictionary

`SELECT … WHERE english LIKE 'p%'` takes the numbers of its rows from the trie, which keeps one
number for each word, and fetches the rows with these numbers from the table of the statement
without comparing them with the prefix again. The result is that of a scan as long as these rows
are the ones that match: in the dictionary itself, as long as no word with the prefix stands in two
rows.

## Main definitions

* `lastNumbers` — the numbers that the trie keeps for the words with a prefix.
* `prefixRows` — the rows that a scan finds.
* `prefixAnswer` — the answer, from the numbers.
* `NumbersMatch`, `TrieServes` — when the numbers lead to the rows that match.
* `TrieAgrees` — the search gives what a scan gives.

## Main results

* `perm_collect` — a walk below a prefix meets exactly these numbers.
* `executeSelect_starts` — the answer to a prefix search.
* `trie_agrees_iff` — when the trie gives what a scan gives.
-/

namespace MiniSql
open CText

/-! ## The numbers of the words -/

/-- The number of the last row of each word with a prefix, the first word under number `row`. -/
def lastNumbers (pre : CStr) : List CStr → ℕ → List ℤ
  | [], _ => []
  | word :: words, row =>
    if pre <+: word ∧ word ∉ words then (row : ℤ) :: lastNumbers pre words (row + 1)
    else lastNumbers pre words (row + 1)

section Numbers

variable {pre : CStr}

theorem mem_lastNumbers {words : List CStr} {row : ℕ} {v : ℤ} :
    v ∈ lastNumbers pre words row ↔
      ∃ (i : ℕ) (w : CStr), v = (row + i : ℕ) ∧ LastAt words w i ∧ pre <+: w := by
  induction words generalizing row with
  | nil => simp [lastNumbers, LastAt]
  | cons word words ih =>
    have hrest : v ∈ lastNumbers pre words (row + 1) ↔
        ∃ (i : ℕ) (w : CStr),
          v = (row + i : ℕ) ∧ (∃ j, i = j + 1 ∧ LastAt words w j) ∧ pre <+: w := by
      rw [ih]
      constructor
      · rintro ⟨i, w, rfl, hlast, hpre⟩
        exact ⟨i + 1, w, by push_cast; ring, ⟨i, rfl, hlast⟩, hpre⟩
      · rintro ⟨_, w, rfl, ⟨j, rfl, hlast⟩, hpre⟩
        exact ⟨j, w, by push_cast; ring, hlast, hpre⟩
    simp only [lastAt_cons]
    rw [lastNumbers]
    by_cases hlast : pre <+: word ∧ word ∉ words
    · rw [if_pos hlast, List.mem_cons, hrest]
      constructor
      · rintro (rfl | ⟨i, w, hi, hw, hpre⟩)
        · exact ⟨0, word, rfl, .inl ⟨rfl, rfl, hlast.2⟩, hlast.1⟩
        · exact ⟨i, w, hi, .inr hw, hpre⟩
      · rintro ⟨i, w, hi, ⟨rfl, rfl, -⟩ | hw, hpre⟩
        · exact .inl hi
        · exact .inr ⟨i, w, hi, hw, hpre⟩
    · rw [if_neg hlast, hrest]
      constructor
      · rintro ⟨i, w, hi, hw, hpre⟩
        exact ⟨i, w, hi, .inr hw, hpre⟩
      · rintro ⟨i, w, hi, ⟨rfl, rfl, hnot⟩ | hw, hpre⟩
        · exact absurd ⟨hpre, hnot⟩ hlast
        · exact ⟨i, w, hi, hw, hpre⟩

theorem pairwise_lastNumbers (words : List CStr) (row : ℕ) :
    (lastNumbers pre words row).Pairwise (· < ·) := by
  induction words generalizing row with
  | nil => exact List.Pairwise.nil
  | cons word words ih =>
    rw [lastNumbers]
    split
    · refine List.pairwise_cons.mpr ⟨fun v hv => ?_, ih (row + 1)⟩
      obtain ⟨i, w, rfl, -, -⟩ := mem_lastNumbers.mp hv
      omega
    · exact ih (row + 1)

/-- **A walk below a prefix meets the last number of each word with it.** -/
theorem perm_collect {words : List CStr} {t : Trie} (h : insertWords words 0 trieCreate = some t)
    (hpre : isAsciiLowercaseWord pre = true) :
    ((t.subtree (pre.map charIndex)).collect (List.finRange 26)).Perm
      (lastNumbers pre words 0) := by
  set all := (t.subtree (pre.map charIndex)).collect (List.finRange 26) with hall
  -- a search with room for one number more is not cut off
  have hsearch : trieSearchPrefix t pre (all.length + 1) = all := by
    rw [trieSearchPrefix_eq hpre, ← hall, List.take_of_length_le (by omega)]
  obtain ⟨hnodup, hmem⟩ := @trieSearchPrefix_spec words t h pre hpre (all.length + 1) (by
    rw [hsearch]
    omega)
  rw [hsearch] at hnodup hmem
  have hnodup' : (lastNumbers pre words 0).Nodup :=
    (pairwise_lastNumbers words 0).imp fun {a b} hlt => hlt.ne
  rw [List.perm_ext_iff_of_nodup hnodup hnodup']
  intro v
  rw [hmem, mem_lastNumbers]
  simp

/-- The numbers of a search that is not cut off, once they are sorted. -/
theorem insertionSort_trieSearchPrefix {words : List CStr} {t : Trie}
    (h : insertWords words 0 trieCreate = some t) (hpre : isAsciiLowercaseWord pre = true)
    (maxOut : ℕ) :
    (maxOut ≤ (trieSearchPrefix t pre maxOut).length ↔
        maxOut ≤ (lastNumbers pre words 0).length) ∧
      ((lastNumbers pre words 0).length < maxOut →
        (trieSearchPrefix t pre maxOut).insertionSort (· ≤ ·) = lastNumbers pre words 0) := by
  have hperm := perm_collect h hpre
  have hlen := hperm.length_eq
  rw [trieSearchPrefix_eq hpre, List.length_take]
  refine ⟨by omega, fun hfew => ?_⟩
  rw [List.take_of_length_le (by omega)]
  refine ((List.perm_insertionSort _ _).trans hperm).eq_of_pairwise'
    (List.pairwise_insertionSort _ _) ?_
  exact (pairwise_lastNumbers words 0).imp fun {a b} hlt => hlt.le

end Numbers

/-! ## The rows that match -/

/-- A pattern that is a prefix with a `%` behind it. -/
theorem likeMatch_percent {pre : CStr} (hpercent : '%' ∉ pre) (hunder : '_' ∉ pre) (text : CStr) :
    likeMatch text (pre ++ ['%']) = pre.isPrefixOf text := by
  unfold likeMatch
  induction pre generalizing text with
  | nil => simp [likeLoop]
  | cons c pre ih =>
    obtain ⟨hc, hpre⟩ := not_or.mp (List.mem_cons.not.mp hpercent)
    obtain ⟨hu, hpre'⟩ := not_or.mp (List.mem_cons.not.mp hunder)
    have hc' : c ≠ '%' := fun h => hc h.symm
    have hu' : (c == '_') = false := by simpa using fun h => hu h.symm
    rw [List.cons_append, likeLoop, if_neg hc', if_neg Bool.false_ne_true]
    cases text with
    | nil => simp [likeChar]
    | cons d text =>
      rw [List.tail_cons, ih hpre hpre', List.isPrefixOf, likeChar, hu', Bool.false_or,
        Bool.beq_comm]

/-- The rows that a scan finds whose only condition is that `english` has a prefix; a column of
another type cannot be compared with a pattern. -/
def prefixRows (schema : List ColDef) (pre : CStr) (rows : List Row) : Option (List Row) :=
  (findSchemaIndex schema "english".toList).bind fun j =>
    if rows = [] ∨ (schema[j]?).map (·.type) = some .varchar then
      some (rows.filter fun row => pre.isPrefixOf (row[j]?.getD []))
    else none

theorem prefixRows_subset {schema : List ColDef} {pre : CStr} {rows selection : List Row}
    (h : prefixRows schema pre rows = some selection) : selection ⊆ rows := by
  obtain ⟨j, -, h⟩ := Option.bind_eq_some_iff.mp h
  split at h
  · rw [← Option.some.inj h]
    exact List.filter_subset_self _
  · exact absurd h (by simp)

/-- What a statement that goes through the trie looks like. -/
theorem shouldUseTriePrefix_eq_some {sql : ParsedSQL} {pre : CStr}
    (h : shouldUseTriePrefix sql = some pre) :
    ∃ c, sql.conds = [c] ∧ equalsIgnoreCase sql.table "dictionary".toList = true ∧
      equalsIgnoreCase c.column "english".toList = true ∧ c.op = "LIKE".toList ∧
      stripOptionalQuotes c.value 256 = pre ++ ['%'] ∧ '%' ∉ pre ∧ '_' ∉ pre ∧
      isAsciiLowercaseWord pre = true := by
  unfold shouldUseTriePrefix at h
  split at h
  · rename_i c hconds
    dsimp only at h
    split at h
    · rename_i hcond
      obtain ⟨htable, hcolumn, hop, hlen, hlast, -, hpercent, hunder, hword⟩ := hcond
      obtain rfl := Option.some.inj h
      refine ⟨c, hconds, htable, hcolumn, hop, ?_, hpercent, hunder, hword⟩
      exact (List.dropLast_append_getLast? _ hlast).symm
    · exact absurd h (by simp)
  · exact absurd h (by simp)

section Scan

variable [CDouble] {sql : ParsedSQL} {pre : CStr}

/-- The condition on one row. -/
theorem rowMatchesDelete_starts (hpre : shouldUseTriePrefix sql = some pre) {schema : List ColDef}
    {row : Row} {j : ℕ} (hj : findSchemaIndex schema "english".toList = some j)
    (hlen : row.length = schema.length) :
    rowMatchesDelete schema row sql =
      if (schema[j]?).map (·.type) = some .varchar then some (pre.isPrefixOf (row[j]?.getD []))
      else none := by
  obtain ⟨c, hconds, -, hcolumn, hop, hliteral, hpercent, hunder, -⟩ :=
    shouldUseTriePrefix_eq_some hpre
  have hlt := findSchemaIndex_lt hj
  have heval : evaluateSelectClause schema row c =
      if (schema[j]?).map (·.type) = some .varchar then some (pre.isPrefixOf (row[j]?.getD []))
      else none := by
    unfold evaluateSelectClause
    rw [findSchemaIndex_congr hcolumn, hj]
    dsimp only
    rw [List.getElem?_eq_getElem hlt, List.getElem?_eq_getElem (hlen ▸ hlt), hliteral, hop]
    dsimp only [Option.map_some, Option.getD_some]
    rw [if_neg (by decide)]
    by_cases htype : schema[j].type = .varchar
    · rw [if_pos (congrArg some htype), htype]
      simp [isSupportedOperatorForType, validateLiteralForType, compareValueByType,
        likeMatch_percent hpercent hunder]
    · rw [if_neg fun h => htype (Option.some.inj h), if_pos]
      cases hcase : schema[j].type with
      | varchar => exact absurd hcase htype
      | _ => rfl
  unfold rowMatchesDelete
  rw [hconds]
  dsimp only
  rw [heval]
  split
  · rw [Option.bind_some, matchLoop, Bool.false_or]
  · rfl

/-- **What a scan finds.** -/
theorem scanRows_starts (hpre : shouldUseTriePrefix sql = some pre) (st : Storage) (path : Path)
    (schema : List ColDef) :
    scanRows st path schema sql =
      ((st.files path).bind (loadTableRows · schema.length)).bind (prefixRows schema pre) := by
  obtain ⟨c, hconds, -, hcolumn, -⟩ := shouldUseTriePrefix_eq_some hpre
  unfold scanRows
  cases hload : (st.files path).bind (loadTableRows · schema.length) with
  | none => rfl
  | some rows =>
    dsimp only
    have hwidth : ∀ row ∈ rows, row.length = schema.length := length_of_loaded hload
    rw [hconds, List.all_cons, List.all_nil, Bool.and_true, findSchemaIndex_congr hcolumn,
      Option.bind_some, prefixRows]
    cases hj : findSchemaIndex schema "english".toList with
    | none => rfl
    | some j =>
      rw [if_pos Option.isSome_some, Option.bind_some]
      by_cases htype : (schema[j]?).map (·.type) = some .varchar
      · rw [if_pos (.inr htype)]
        refine collectMatchingRows_eq fun row hrow => ?_
        rw [rowMatchesDelete_starts hpre hj (hwidth row hrow), if_pos htype]
      · cases rows with
        | nil => rfl
        | cons row rows =>
          rw [if_neg (by simp [htype]), collectMatchingRows,
            rowMatchesDelete_starts hpre hj (hwidth row (by simp)), if_neg htype]

end Scan

/-! ## The answer -/

/-- The name of the dictionary in any case is a plain name. -/
theorem plainName_of_dictionary {table : CStr} (h : equalsIgnoreCase table dictionaryName = true) :
    PlainName table ∧ table ≠ [] := by
  have hlen : table.length = 10 := length_eq_of_equalsIgnoreCase h
  refine ⟨⟨by rw [hlen]; decide, fun hmem => ?_⟩, fun hnil => ?_⟩
  · have hlower := List.mem_map_of_mem (f := Char.toLower) hmem
    rw [equalsIgnoreCase_iff.mp h] at hlower
    exact absurd hlower (by decide)
  · rw [hnil] at hlen
    exact absurd hlen (by decide)

section Answer

variable [CDouble] {e : Engine} {sql : ParsedSQL} {pre : CStr}

/-- The answer to a prefix search, from the numbers that the trie finds. -/
def prefixAnswer (st : Storage) (sql : ParsedSQL) (indices : List ℤ) : Outcome :=
  if dictionaryTrieMaxRows ≤ indices.length then scanAnswer st sql
  else
    match (st.tableSchema sql.table).bind fun schema =>
      (fetchRows st sql.table (st.tableFile sql.table) schema (indices.insertionSort (· ≤ ·))).bind
        (buildRowset sql schema) with
    | some rs => .rows .trie rs
    | none => scanAnswer st sql

omit [CDouble] in
theorem notIndexed_of_starts (hpre : shouldUseTriePrefix sql = some pre) :
    shouldUseIdRange sql = none ∧ shouldUseIdIndex sql = none := by
  obtain ⟨c, hconds, -, -, hop, -⟩ := shouldUseTriePrefix_eq_some hpre
  unfold shouldUseIdRange shouldUseIdIndex
  rw [hconds]
  dsimp only
  rw [hop, if_neg fun h => absurd h.2 (by decide), if_neg fun h => absurd h.2 (by decide)]
  exact ⟨rfl, rfl⟩

/-- Reading the whole table, once the prefix has been of no use. -/
theorem scanOutcome_scan {st : Storage} (hshort : sql.table.length ≤ nameMax) (hne : sql.table ≠ [])
    (hc : st.Coherent sql.table) :
    (scanOutcome e (storageSelectResult st sql.table sql)).1 = scanAnswer st sql := by
  obtain ⟨paths, hselect, -⟩ := @selectBy_view st sql.table _
    (fun st path schema => scanRows st path schema sql) (fun _ => rfl) sql hshort hne hc
  unfold scanAnswer storageSelectResult
  rw [hselect]
  cases (st.tableSchema sql.table).bind fun schema =>
    (scanRows st (st.tableFile sql.table) schema sql).bind (buildRowset sql schema) <;> rfl

/-- Reading the rows with the numbers from the trie. -/
theorem selectUnindexed_starts {st : Storage} (hpre : shouldUseTriePrefix sql = some pre)
    (hready : engineIsReady e = true) (hshort : sql.table.length ≤ nameMax) (hne : sql.table ≠ [])
    (hc : st.Coherent sql.table) :
    (selectUnindexed e st sql).1 =
      prefixAnswer st sql (trieSearchPrefix e.trie pre dictionaryTrieMaxRows) := by
  have hready' : e.trieReady = true := hready
  unfold selectUnindexed selectPrefix prefixAnswer
  rw [hpre]
  dsimp only
  rw [if_pos hready']
  by_cases hfull :
      dictionaryTrieMaxRows ≤ (trieSearchPrefix e.trie pre dictionaryTrieMaxRows).length
  · rw [if_pos hfull, if_pos hfull]
    exact scanOutcome_scan hshort hne hc
  · rw [if_neg hfull, if_neg hfull]
    set indices := (trieSearchPrefix e.trie pre dictionaryTrieMaxRows).insertionSort (· ≤ ·)
    obtain ⟨paths, hselect, hc'⟩ := @selectBy_view st sql.table _
      (fun st path schema => fetchRows st sql.table path schema indices) (fun _ => rfl) sql hshort
      hne hc
    unfold storageSelectResultByRowIndices
    rw [hselect]
    cases (st.tableSchema sql.table).bind fun schema =>
      (fetchRows st sql.table (st.tableFile sql.table) schema indices).bind
        (buildRowset sql schema) with
    | some rs => rfl
    | none => exact scanOutcome_scan hshort hne hc'

/-- **What a prefix search answers.** -/
theorem executeSelect_starts (hpre : shouldUseTriePrefix sql = some pre)
    (hready : engineIsReady e = true) (hs : e.storage.Sound) :
    (executeSelect e sql).1 = prefixAnswer e.storage sql
      (trieSearchPrefix e.trie pre dictionaryTrieMaxRows) := by
  obtain ⟨c, -, htable, -⟩ := shouldUseTriePrefix_eq_some hpre
  obtain ⟨hplain, hne⟩ := plainName_of_dictionary htable
  obtain ⟨hfiles, hc⟩ := ensureIndex_view hplain.1 (hs.coherent _ hplain)
  obtain ⟨hrange, hid⟩ := notIndexed_of_starts hpre
  unfold executeSelect
  rw [hrange, hid]
  dsimp only
  rw [selectUnindexed_starts hpre hready hplain.1 hne hc]
  -- filling the index leaves the files alone
  have hsame : SameTable sql.table e.storage (ensureIndex e.storage sql.table) :=
    sameTable_of_own fun path _ => by rw [hfiles]
  have hfetch : ∀ schema indices, fetchRows (ensureIndex e.storage sql.table) sql.table
      ((ensureIndex e.storage sql.table).tableFile sql.table) schema indices =
      fetchRows e.storage sql.table (e.storage.tableFile sql.table) schema indices := by
    intro schema indices
    rw [hsame.tableFile, fetchRows, hfiles, fetchRows]
  unfold prefixAnswer
  rw [scanAnswer_congr hsame]
  simp only [hfetch, hsame.tableSchema]

end Answer

/-! ## What is claimed -/

section Agrees

variable [CDouble] {e : Engine} {sql : ParsedSQL} {pre : CStr} {words : List CStr}

/-- What the trie finds for a statement is what a scan finds, in the same order. -/
def TrieAgrees (e : Engine) (sql : ParsedSQL) : Prop :=
  ∀ rs, (executeSelect e sql).1 = .rows .trie rs →
    (storageSelectResult e.storage sql.table sql).1 = some rs

/-- The rows with some numbers, if they can be fetched, are the rows that match. -/
def RowsMatch (st : Storage) (table : CStr) (pre : CStr) (indices : List ℤ) : Prop :=
  ∀ schema ∈ st.tableSchema table, ∀ rows ∈ fetchRows st table (st.tableFile table) schema indices,
    ((st.content table).bind (loadTableRows · schema.length)).bind (prefixRows schema pre) =
      some rows

omit [CDouble] in
theorem scanAnswer_ne_trie [CDouble] {st : Storage} {rs : RowSet} :
    scanAnswer st sql ≠ .rows .trie rs := by
  unfold scanAnswer
  split <;> simp

/-- What a scan gives for a prefix. -/
theorem storageSelectResult_starts (hpre : shouldUseTriePrefix sql = some pre)
    (hs : e.storage.Sound) :
    (storageSelectResult e.storage sql.table sql).1 =
      (e.storage.tableSchema sql.table).bind fun schema =>
        (((e.storage.content sql.table).bind (loadTableRows · schema.length)).bind
          (prefixRows schema pre)).bind (buildRowset sql schema) := by
  obtain ⟨c, -, htable, -⟩ := shouldUseTriePrefix_eq_some hpre
  obtain ⟨hplain, hne⟩ := plainName_of_dictionary htable
  obtain ⟨-, -, hresult⟩ := @selectBy_table e.storage sql.table _
    (fun st path schema => scanRows st path schema sql) (fun _ => rfl) sql hs hplain
  rw [storageSelectResult, hresult, if_neg hne]
  simp only [scanRows_starts hpre]
  rfl

/-- **All statements with the prefix agree with a scan when the rows that the trie leads to are the
rows that match.** -/
theorem trieAgrees_iff_rows (hs : e.storage.Sound) (hready : engineIsReady e = true)
    (htrie : insertWords words 0 trieCreate = some e.trie)
    (hpre : shouldUseTriePrefix sql = some pre) :
    (∀ sql', sql'.table = sql.table → sql'.conds = sql.conds → TrieAgrees e sql') ↔
      ((lastNumbers pre words 0).length < dictionaryTrieMaxRows →
        RowsMatch e.storage sql.table pre (lastNumbers pre words 0)) := by
  obtain ⟨c, -, -, -, -, -, -, -, hword⟩ := shouldUseTriePrefix_eq_some hpre
  obtain ⟨hfull, hsorted⟩ := insertionSort_trieSearchPrefix htrie hword dictionaryTrieMaxRows
  -- the other statements go through the trie as well
  have hpre' : ∀ sql', sql'.table = sql.table → sql'.conds = sql.conds →
      shouldUseTriePrefix sql' = some pre := by
    intro sql' htable hconds
    rw [← hpre]
    simp only [shouldUseTriePrefix, htable, hconds]
  constructor
  · intro hall hfew schema hschema rows hrows
    have hagrees := hall (selectAll sql) rfl rfl
    have hbuild := @buildRowset_selectAll _ sql schema rows (length_of_fetchRows hrows)
    have hanswer := executeSelect_starts (hpre' (selectAll sql) rfl rfl) hready hs
    have htable : (selectAll sql).table = sql.table := rfl
    rw [prefixAnswer, if_neg (by omega), hsorted hfew, htable, hschema, Option.bind_some, hrows,
      Option.bind_some, hbuild] at hanswer
    have hscan := hagrees _ hanswer
    rw [storageSelectResult_starts (hpre' (selectAll sql) rfl rfl) hs, htable, hschema,
      Option.bind_some, Option.bind_eq_some_iff] at hscan
    obtain ⟨rows', hrows', hbuild'⟩ := hscan
    obtain ⟨all, hall, hselect⟩ := Option.bind_eq_some_iff.mp hrows'
    have hwidth : ∀ row ∈ rows', row.length = schema.length := fun row hrow =>
      length_of_loaded hall row (prefixRows_subset hselect hrow)
    rw [buildRowset_selectAll hwidth] at hbuild'
    obtain rfl : rows' = rows := congrArg RowSet.rows (Option.some.inj hbuild')
    exact hrows'
  · intro hmatch sql' htable hconds rs hanswer
    rw [executeSelect_starts (hpre' sql' htable hconds) hready hs, prefixAnswer] at hanswer
    by_cases hmany : dictionaryTrieMaxRows ≤ (lastNumbers pre words 0).length
    · rw [if_pos (hfull.mpr hmany)] at hanswer
      exact absurd hanswer scanAnswer_ne_trie
    · have hfew := not_le.mp hmany
      rw [if_neg (mt hfull.mp hmany), hsorted hfew] at hanswer
      split at hanswer
      · rename_i rs' hrs'
        obtain rfl : rs' = rs := (Outcome.rows.inj hanswer).2
        obtain ⟨schema, hschema, hfetched⟩ := Option.bind_eq_some_iff.mp hrs'
        obtain ⟨rows, hrows, hbuild⟩ := Option.bind_eq_some_iff.mp hfetched
        rw [htable] at hschema hrows
        rw [storageSelectResult_starts (hpre' sql' htable hconds) hs, htable, hschema,
          Option.bind_some, hmatch hfew schema hschema rows hrows, Option.bind_some, hbuild]
      · exact absurd hanswer scanAnswer_ne_trie

end Agrees

/-! ## The numbers of the rows that match -/

/-- Two ways to filter a list keep the same elements. -/
theorem map_filter_eq_filter_map_iff {α β : Type*} {l : List α} {f : α → β} {q : α → Bool}
    {p : β → Bool} :
    (l.filter q).map f = (l.map f).filter p ↔ ∀ x ∈ l, q x = p (f x) := by
  constructor
  · intro h
    -- what the first way keeps, the second way keeps
    have hkeeps : ∀ x ∈ l, q x = true → p (f x) = true := by
      intro x hx hq
      have hmem : f x ∈ (l.filter q).map f :=
        List.mem_map_of_mem (List.mem_filter.mpr ⟨hx, hq⟩)
      rw [h] at hmem
      exact (List.mem_filter.mp hmem).2
    -- and it does not keep more, since the lists are of one length
    have hlen : ((l.filter (p ∘ f)).filter q).length = (l.filter (p ∘ f)).length := by
      rw [List.filter_map] at h
      have hcount := congrArg List.length h
      rw [List.length_map, List.length_map] at hcount
      rw [← hcount, List.filter_filter]
      congr 1
      refine List.filter_congr fun x hx => ?_
      cases hq : q x with
      | false => rfl
      | true => rw [Function.comp_apply, hkeeps x hx hq, Bool.and_self]
    intro x hx
    rw [Bool.eq_iff_iff]
    refine ⟨hkeeps x hx, fun hp => ?_⟩
    exact List.length_filter_eq_length_iff.mp hlen x (List.mem_filter.mpr ⟨hx, hp⟩)
  · intro h
    rw [List.filter_map]
    exact congrArg (List.map f) (List.filter_congr h)

/-- Rows with increasing numbers, from the number `n` on. -/
theorem filterMap_increasing {α : Type*} (xs : List α) (n : ℕ) {indices : List ℤ}
    (hsorted : indices.Pairwise (· < ·)) (hle : ∀ v ∈ indices, (n : ℤ) ≤ v) :
    indices.filterMap (fun i : ℤ => xs[(i - n).toNat]?) =
      ((xs.zipIdx n).filter fun x => decide ((x.2 : ℤ) ∈ indices)).map Prod.fst := by
  induction xs generalizing n indices with
  | nil => simp
  | cons x xs ih =>
    -- the numbers behind `n`, if any
    have hrest : ∀ {later : List ℤ}, later.Pairwise (· < ·) → (∀ v ∈ later, (n : ℤ) < v) →
        later.filterMap (fun i : ℤ => (x :: xs)[(i - n).toNat]?) =
          ((xs.zipIdx (n + 1)).filter fun x => decide ((x.2 : ℤ) ∈ later)).map Prod.fst := by
      intro later hlater hlt
      rw [← ih (n + 1) hlater fun v hv => by have := hlt v hv; push_cast; omega]
      refine List.filterMap_congr fun v hv => ?_
      have hv' := hlt v hv
      have hsucc : (v - n).toNat = (v - (n + 1 : ℕ)).toNat + 1 := by omega
      rw [hsucc, List.getElem?_cons_succ]
    rw [List.zipIdx_cons, List.filter_cons]
    cases indices with
    | nil => simp
    | cons v later =>
      obtain ⟨hlt, hlater⟩ := List.pairwise_cons.mp hsorted
      by_cases hv : v = n
      · subst hv
        rw [if_pos (by simp), List.map_cons, List.filterMap_cons_some (b := x) (by simp),
          hrest hlater hlt]
        congr 2
        refine List.filter_congr fun y hy => ?_
        have hy' := List.le_snd_of_mem_zipIdx hy
        have hne : (y.2 : ℤ) ≠ n := by omega
        simp [hne]
      · have hn : (n : ℤ) < v := by
          have := hle v (by simp)
          omega
        have hnot : (n : ℤ) ∉ v :: later := by
          intro hmem
          rcases List.mem_cons.mp hmem with heq | hmem
          · exact hv heq.symm
          · have := hlt _ hmem
            omega
        rw [if_neg (by simpa using hnot)]
        refine hrest hsorted fun w hw => ?_
        rcases List.mem_cons.mp hw with rfl | hw
        · exact hn
        · exact hn.trans (hlt w hw)


/-- The words with a prefix. -/
def wordsWith (pre : CStr) (words : List CStr) : List CStr := words.filter (pre.isPrefixOf ·)

theorem wordsWith_cons (pre word : CStr) (words : List CStr) :
    wordsWith pre (word :: words) =
      if pre <+: word then word :: wordsWith pre words else wordsWith pre words := by
  simp [wordsWith, List.filter_cons]

theorem mem_wordsWith {pre word : CStr} {words : List CStr} :
    word ∈ wordsWith pre words ↔ word ∈ words ∧ pre <+: word := by
  simp [wordsWith, List.mem_filter]

/-- The trie keeps one number for each of them. -/
theorem length_lastNumbers (pre : CStr) (words : List CStr) (row : ℕ) :
    (lastNumbers pre words row).length = (wordsWith pre words).dedup.length := by
  induction words generalizing row with
  | nil => rfl
  | cons word words ih =>
    rw [lastNumbers, wordsWith_cons]
    by_cases hpre : pre <+: word
    · rw [if_pos hpre]
      have hmem : word ∈ wordsWith pre words ↔ word ∈ words := by
        rw [mem_wordsWith, and_iff_left hpre]
      by_cases hlater : word ∈ words
      · rw [if_neg fun h => h.2 hlater, List.dedup_cons_of_mem (hmem.mpr hlater), ih]
      · rw [if_pos ⟨hpre, hlater⟩, List.dedup_cons_of_notMem (mt hmem.mp hlater), List.length_cons,
          List.length_cons, ih]
    · rw [if_neg fun h => hpre h.1, if_neg hpre, ih]

/-- Every one of them stands at its last position when none of them stands twice. -/
theorem lastAt_iff_nodup (pre : CStr) (words : List CStr) :
    (∀ i w, words[i]? = some w → pre <+: w → LastAt words w i) ↔ (wordsWith pre words).Nodup := by
  induction words with
  | nil => simp [wordsWith]
  | cons word words ih =>
    have hcons : (∀ i w, (word :: words)[i]? = some w → pre <+: w → LastAt (word :: words) w i) ↔
        (pre <+: word → word ∉ words) ∧
          ∀ i w, words[i]? = some w → pre <+: w → LastAt words w i := by
      simp only [lastAt_cons]
      constructor
      · intro h
        refine ⟨fun hpre => ?_, fun i w hw hpre => ?_⟩
        · rcases h 0 word rfl hpre with ⟨-, -, hnot⟩ | ⟨j, hj, -⟩
          · exact hnot
          · exact absurd hj (by omega)
        · rcases h (i + 1) w (by simpa using hw) hpre with ⟨hi, -⟩ | ⟨j, hj, hlast⟩
          · exact absurd hi (by omega)
          · obtain rfl : i = j := by omega
            exact hlast
      · intro h i w hw hpre
        cases i with
        | zero =>
          obtain rfl : word = w := by simpa using hw
          exact .inl ⟨rfl, rfl, h.1 hpre⟩
        | succ i => exact .inr ⟨i, rfl, h.2 i w (by simpa using hw) hpre⟩
    rw [hcons, ih, wordsWith_cons]
    by_cases hpre : pre <+: word
    · rw [if_pos hpre, List.nodup_cons, mem_wordsWith, and_iff_left hpre, imp_iff_right hpre]
    · rw [if_neg hpre]
      exact and_iff_right fun h => absurd h hpre

/-- The numbers that the trie has for a prefix are those of the rows of a table that match, and the
column `english` of the table can be compared with a pattern. -/
def NumbersMatch (pre : CStr) (words : List CStr) (schema : List ColDef) (rows : List Row) : Prop :=
  ∃ j, findSchemaIndex schema "english".toList = some j ∧
    (rows = [] ∨ (schema[j]?).map (·.type) = some .varchar ∧
      ∀ i row, rows[i]? = some row →
        ((∃ w, LastAt words w i ∧ pre <+: w) ↔ pre <+: row[j]?.getD []))

/-- The rows with these numbers are the rows that match. -/
theorem prefixRows_eq_pickRows {pre : CStr} {words : List CStr} {schema : List ColDef}
    {rows : List Row} :
    prefixRows schema pre rows = some (pickRows rows (lastNumbers pre words 0)) ↔
      NumbersMatch pre words schema rows := by
  have hpick : pickRows rows (lastNumbers pre words 0) =
      (rows.zipIdx.filter fun x => decide ((x.2 : ℤ) ∈ lastNumbers pre words 0)).map Prod.fst := by
    have hle : ∀ v ∈ lastNumbers pre words 0, ((0 : ℕ) : ℤ) ≤ v := by
      intro v hv
      obtain ⟨i, w, rfl, -⟩ := mem_lastNumbers.mp hv
      omega
    rw [← filterMap_increasing rows 0 (pairwise_lastNumbers words 0) hle, pickRows]
    refine List.filterMap_congr fun v hv => ?_
    have hv' := hle v hv
    rw [if_neg (by omega)]
    simp
  have hmem : ∀ i : ℕ, (i : ℤ) ∈ lastNumbers pre words 0 ↔ ∃ w, LastAt words w i ∧ pre <+: w := by
    intro i
    rw [mem_lastNumbers]
    simp
  unfold prefixRows NumbersMatch
  cases findSchemaIndex schema "english".toList with
  | none => simp
  | some j =>
    rw [Option.bind_some, hpick]
    by_cases hnil : rows = []
    · subst hnil
      simp
    by_cases htype : (schema[j]?).map (·.type) = some .varchar
    · rw [if_pos (.inr htype), Option.some.injEq, eq_comm]
      conv_lhs => rhs; rw [← List.zipIdx_map_fst 0 rows]
      rw [map_filter_eq_filter_map_iff]
      have hiff : ∀ (i : ℕ) (row : Row),
          decide ((i : ℤ) ∈ lastNumbers pre words 0) = pre.isPrefixOf (row[j]?.getD []) ↔
            ((∃ w, LastAt words w i ∧ pre <+: w) ↔ pre <+: row[j]?.getD []) := by
        intro i row
        rw [Bool.eq_iff_iff, decide_eq_true_iff, hmem, List.isPrefixOf_iff_prefix]
      constructor
      · intro h
        refine ⟨j, rfl, .inr ⟨htype, fun i row hrow => ?_⟩⟩
        exact (hiff i row).mp (h (row, i) (List.mk_mem_zipIdx_iff_getElem?.mpr hrow))
      · rintro ⟨j', hj, hempty | ⟨-, h⟩⟩ ⟨row, i⟩ hmem'
        · exact absurd hempty hnil
        · obtain rfl := Option.some.inj hj
          exact (hiff i row).mpr (h i row (List.mk_mem_zipIdx_iff_getElem?.mp hmem'))
    · rw [if_neg (not_or.mpr ⟨hnil, htype⟩)]
      refine iff_of_false (by simp) ?_
      rintro ⟨j', hj, hempty | ⟨h, -⟩⟩
      · exact hnil hempty
      · obtain rfl := Option.some.inj hj
        exact htype h

/-! ## When the trie is right -/

section Serves

variable [CDouble] {st : Storage} {table pre : CStr} {words : List CStr}

/-- The words with a prefix are too many for the trie to be used, or the rows that their numbers
lead to are those that match: in the `.bin` file where there is one, and in the table itself
elsewhere. -/
def TrieServes (st : Storage) (words : List CStr) (table pre : CStr) : Prop :=
  (wordsWith pre words).dedup.length < dictionaryTrieMaxRows → ∀ schema ∈ st.tableSchema table,
    (∀ bin ∈ st.files (binPath table),
      ((st.content table).bind (loadTableRows · schema.length)).bind (prefixRows schema pre) =
        some (loadBinaryRowsByIndices schema bin (lastNumbers pre words 0))) ∧
    (st.files (binPath table) = none →
      ∀ rows ∈ (st.content table).bind (loadTableRows · schema.length),
        NumbersMatch pre words schema rows)

theorem trieServes_iff (hshort : table.length ≤ nameMax) :
    ((lastNumbers pre words 0).length < dictionaryTrieMaxRows →
        RowsMatch st table pre (lastNumbers pre words 0)) ↔ TrieServes st words table pre := by
  unfold TrieServes RowsMatch
  rw [length_lastNumbers]
  refine imp_congr_right fun _ => forall₂_congr fun schema _ => ?_
  cases hbin : st.files (binPath table) with
  | some bin => simp [fetchRows_bin hshort hbin]
  | none =>
    cases hload : (st.content table).bind (loadTableRows · schema.length) with
    | none =>
      have hfetch :
          fetchRows st table (st.tableFile table) schema (lastNumbers pre words 0) = none := by
        have hload' : (st.files (st.tableFile table)).bind (loadTableRows · schema.length) = none :=
          hload
        rw [fetchRows, hbin, hload']
        simp
      simp [hfetch]
    | some rows =>
      obtain ⟨file, hfile, hrows⟩ := Option.bind_eq_some_iff.mp hload
      rw [fetchRows_csv hbin hfile hrows]
      simp [prefixRows_eq_pickRows]

omit [CDouble] in
/-- The column `english` of the dictionary is a text. -/
def EnglishText (st : Storage) : Prop :=
  ∀ schema ∈ st.tableSchema dictionaryName, ∀ j ∈ findSchemaIndex schema "english".toList,
    (schema[j]?).map (·.type) = some .varchar

omit [CDouble] in
/-- In the dictionary itself, the numbers are right when no word with the prefix stands twice. -/
theorem numbersMatch_dictionary {schema : List ColDef} {file : CStr} {rows : List Row}
    (hschema : st.tableSchema dictionaryName = some schema)
    (hload : loadTableRows file schema.length = some rows)
    (hwords : englishWords schema file = some words) :
    NumbersMatch pre words schema rows ↔
      words = [] ∨ EnglishText st ∧ (wordsWith pre words).Nodup := by
  obtain ⟨j, hj, hcells⟩ := Option.bind_eq_some_iff.mp hwords
  rw [hload, Option.map_some] at hcells
  obtain rfl := Option.some.inj hcells
  have htext : EnglishText st ↔ (schema[j]?).map (·.type) = some .varchar := by
    simp only [EnglishText, hschema, hj, Option.mem_def, Option.some.injEq, forall_eq']
  rw [htext, ← lastAt_iff_nodup, List.map_eq_nil_iff, NumbersMatch]
  constructor
  · rintro ⟨j', hj', hempty | ⟨htype, hmatch⟩⟩
    · exact .inl hempty
    · obtain rfl := Option.some.inj (hj.symm.trans hj')
      refine .inr ⟨htype, fun i w hw hpre => ?_⟩
      rw [List.getElem?_map, Option.map_eq_some_iff] at hw
      obtain ⟨row, hrow, rfl⟩ := hw
      obtain ⟨w, hlast, -⟩ := (hmatch i row hrow).mpr hpre
      have hw := hlast.1
      rw [List.getElem?_map, hrow, Option.map_some] at hw
      rw [Option.some.inj hw]
      exact hlast
  · rintro (hempty | ⟨htype, hlast⟩)
    · exact ⟨j, hj, .inl hempty⟩
    · refine ⟨j, hj, .inr ⟨htype, fun i row hrow => ?_⟩⟩
      have hcell : (rows.map fun row => row[j]?.getD [])[i]? = some (row[j]?.getD []) := by
        rw [List.getElem?_map, hrow, Option.map_some]
      constructor
      · rintro ⟨w, hw, hpre⟩
        rw [Option.some.inj (hcell.symm.trans hw.1)]
        exact hpre
      · intro hpre
        exact ⟨_, hlast i _ hcell hpre, hpre⟩

/-- **A prefix search gives what a scan gives, for all columns, orders and limits, exactly when the
trie serves the table**; the dictionary itself is served when the trie is not used, when it is
empty, and when no word with the prefix stands in two of its rows. -/
theorem trie_agrees_iff {e : Engine} {words : List CStr} {sql : ParsedSQL} {pre : CStr}
    (hs : e.storage.Sound) (hready : engineIsReady e = true)
    (htrie : insertWords words 0 trieCreate = some e.trie)
    (hpre : shouldUseTriePrefix sql = some pre) :
    ((∀ sql', sql'.table = sql.table → sql'.conds = sql.conds → TrieAgrees e sql') ↔
      TrieServes e.storage words sql.table pre) ∧
    (sql.table = dictionaryName → e.storage.words = some words →
      e.storage.files (binPath dictionaryName) = none →
        (TrieServes e.storage words sql.table pre ↔
          dictionaryTrieMaxRows ≤ (wordsWith pre words).dedup.length ∨ words = [] ∨
            EnglishText e.storage ∧ (wordsWith pre words).Nodup)) := by
  obtain ⟨c, -, hname, -⟩ := shouldUseTriePrefix_eq_some hpre
  constructor
  · rw [← trieServes_iff (plainName_of_dictionary hname).1.1]
    exact trieAgrees_iff_rows hs hready htrie hpre
  · intro htable hwords hbin
    obtain ⟨schema, hschema, hfile⟩ := Option.bind_eq_some_iff.mp hwords
    obtain ⟨file, hcontent, henglish⟩ := Option.bind_eq_some_iff.mp hfile
    obtain ⟨j, hj, hcells⟩ := Option.bind_eq_some_iff.mp henglish
    obtain ⟨rows, hload, -⟩ := Option.map_eq_some_iff.mp hcells
    have hnumbers := @numbersMatch_dictionary e.storage pre words schema file rows hschema hload
      henglish
    rw [← hnumbers, htable, TrieServes, hbin, hschema, hcontent, ← not_lt, ← imp_iff_not_or]
    simp [hload]

/-- After `engine_init` a trie that is ready holds the words of the dictionary. -/
theorem trieRebuilt_engineInit {files : Path → Option CStr}
    (hready : engineIsReady (engineInit files) = true) : (engineInit files).TrieRebuilt := by
  obtain ⟨e, hs, heq⟩ := engineInit_rebuilt hready
  rw [heq] at hready ⊢
  exact dictionaryTrieRebuild_rebuilt hs hready

end Serves

/-! Two dictionaries. -/

/-- The files of a dictionary with the given rows. -/
def dictionaryWith (rows : CStr) : Path → Option CStr := fun path =>
  if path = schemaPath .nested dictionaryName then
    some "id,INT\nenglish,VARCHAR\nkorean,VARCHAR\n".toList
  else if path = tablePath .nested dictionaryName then some rows
  else none

/-- `SELECT * FROM dictionary WHERE english LIKE 'a%'`. -/
def selectLetterA : ParsedSQL :=
  { parsedNew with
    type := .select, table := dictionaryName, columns := [['*']],
    conds := [⟨"english".toList, "LIKE".toList, "a%".toList, []⟩] }

example :
    parseSql .zero "SELECT * FROM dictionary WHERE english LIKE 'a%'".toList = some selectLetterA := by
  decide +kernel

instance (st : Storage) : Decidable (EnglishText st) :=
  inferInstanceAs (Decidable (∀ schema ∈ st.tableSchema dictionaryName,
    ∀ j ∈ findSchemaIndex schema "english".toList, _))

/-- No word stands twice. -/
theorem trie_agrees_three : @TrieAgrees .whole
    (@engineInit .whole (dictionaryWith "1,apple,sagwa\n2,dog,gae\n3,ant,gaemi\n".toList))
    selectLetterA := by
  set e := @engineInit .whole (dictionaryWith "1,apple,sagwa\n2,dog,gae\n3,ant,gaemi\n".toList)
  have hready : engineIsReady e = true := by decide +kernel
  obtain ⟨words, hwords, htrie⟩ := @trieRebuilt_engineInit .whole _ hready
  obtain rfl : words = ["apple".toList, "dog".toList, "ant".toList] := by
    have hsome : e.storage.words = some ["apple".toList, "dog".toList, "ant".toList] := by
      decide +kernel
    exact Option.some.inj (hwords.symm.trans hsome)
  have hs := (@serves_engineInit .whole _ hready).sound
  have hiff := @trie_agrees_iff .whole e _ selectLetterA ['a'] hs hready htrie (by decide)
  have hserves := (hiff.2 rfl hwords (by decide +kernel)).mpr
    (.inr (.inr ⟨by decide +kernel, by decide⟩))
  exact hiff.1.mpr hserves selectLetterA rfl rfl

/-- The word `apple` stands in two rows, and the trie leads to the second one only. -/
theorem trie_drops_row :
    engineIsReady (@engineInit .whole
      (dictionaryWith "1,apple,sagwa\n2,apple,neunggeum\n".toList)) = true ∧
    ¬ @TrieAgrees .whole
      (@engineInit .whole (dictionaryWith "1,apple,sagwa\n2,apple,neunggeum\n".toList))
      selectLetterA := by
  refine ⟨by decide +kernel, fun h => ?_⟩
  have hscan := h ⟨["id".toList, "english".toList, "korean".toList],
    [["2".toList, "apple".toList, "neunggeum".toList]]⟩ (by decide +kernel)
  exact absurd hscan (by decide +kernel)

end MiniSql

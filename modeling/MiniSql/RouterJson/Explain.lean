import MiniSql.EngineJson.Document
import MiniSql.Extremes
import MiniSql.RouterJson
import MiniSql.Storage.Scanners

/-!
# The plan that `engine_explain` reports

`engine_explain` looks at the statement only. `execute_select` also needs a tree, literals that are
integers, rows that make a result, and fewer than 4096 words with the prefix; otherwise it reads the
whole table after all.

## Main definitions

* `explainIndexUsed` — the `index_used` of `engine_explain`.
* `SumReadable` — the cells that a `SUM` or an `AVG` adds up are numbers.
* `Served` — the index that the statement asks for can answer it.

## Main results

* `buildRowset_isSome_iff` — which rows make a result.
* `explain_agrees_iff` — the report agrees with the execution if and only if the index answers.
-/

namespace MiniSql
open CText

variable [CDouble]

omit [CDouble] in
/-- `index_used` of `engine_explain`. -/
def explainIndexUsed (mem : ℕ → Uninit) (e : Engine) (sql : CStr) : Bool :=
  match splitNextStatement (sql.length + 1) sql with
  | none => false
  | some (stmt, _) =>
    match parseSql (mem 0) stmt with
    | none => false
    | some sql => if sql.type = .unknown then false else (explainPlan e sql).2.1

/-! ## Which rows make a result -/

/-- A cell that `evaluate_aggregate` can add up. -/
def SumReads (type : ColumnType) (cell : CStr) : Prop :=
  match type with
  | .int => (parseLongValue cell).isSome
  | .float => (parseDoubleValue cell).isSome
  | _ => True

/-- Where the result is a sum or an average, the cells of its column can be read. -/
def SumReadable (sql : ParsedSQL) (schema : List ColDef) (rows : List Row) : Prop :=
  ∀ column fn arg i, sql.columns = [column] → parseAggregateCall column = some (fn, arg) →
    fn ∈ ["SUM".toList, "AVG".toList] → findSchemaIndex schema arg = some i →
    ∀ row ∈ rows, SumReads (columnType schema i) (row[i]?.getD [])

omit [CDouble] in
theorem mapM_isSome_iff {α β : Type*} (f : α → Option β) (xs : List α) :
    (xs.mapM f).isSome ↔ ∀ x ∈ xs, (f x).isSome := by
  induction xs with
  | nil => simp
  | cons x xs ih =>
    rw [List.mapM_cons, List.forall_mem_cons, ← ih]
    cases f x with
    | none => simp
    | some y => cases xs.mapM f <;> simp

/-- Sorting depends on the statement alone, and loses no row. -/
theorem sortSelection_of_isSome {sql : ParsedSQL} {schema : List ColDef} {rows : List Row}
    (h : (sortSelection sql schema rows).isSome) (rows' : List Row) :
    ∃ sorted, sortSelection sql schema rows' = some sorted ∧ sorted.Perm rows' := by
  unfold sortSelection at h ⊢
  cases horder : sql.orderBy with
  | none => exact ⟨rows', rfl, .refl _⟩
  | some order =>
    rw [horder] at h
    dsimp only at h ⊢
    by_cases hempty : order.column = []
    · rw [if_pos hempty]
      exact ⟨rows', rfl, .refl _⟩
    · rw [if_neg hempty] at h ⊢
      cases hi : findSchemaIndex schema order.column with
      | none =>
        rw [hi] at h
        exact absurd h (by simp)
      | some i => exact ⟨_, rfl, exchangeSort_perm _ _ _⟩

/-- `SUM` and `AVG` of a column that has numbers need cells that are numbers. -/
theorem evaluateAggregate_isSome_iff {fn : CStr} {target : Option (ℕ × ColumnType)}
    {rows : List Row} (h : (evaluateAggregate fn target rows).isSome)
    (hfn : fn ∈ ["COUNT".toList, "SUM".toList, "AVG".toList, "MIN".toList, "MAX".toList])
    (rows' : List Row) :
    (evaluateAggregate fn target rows').isSome ↔ ∀ i type, target = some (i, type) →
      fn ∈ ["SUM".toList, "AVG".toList] → ∀ row ∈ rows', SumReads type (row[i]?.getD []) := by
  have hnot : fn = "COUNT".toList ∨ fn = "MIN".toList ∨ fn = "MAX".toList →
      fn ∉ ["SUM".toList, "AVG".toList] := by
    intro hother
    rcases hother with rfl | rfl | rfl <;> decide
  unfold evaluateAggregate at h ⊢
  by_cases hcount : fn = "COUNT".toList
  · rw [if_pos hcount]
    exact iff_of_true rfl fun i type _ hsum => absurd hsum (hnot (.inl hcount))
  rw [if_neg hcount] at h ⊢
  cases target with
  | none => exact absurd h (by simp)
  | some target =>
    obtain ⟨i, type⟩ := target
    dsimp only at h ⊢
    by_cases hbest : fn = "MIN".toList ∨ fn = "MAX".toList
    · rw [if_pos hbest]
      refine iff_of_true ?_ fun i type _ hsum => absurd hsum (hnot (.inr hbest))
      cases rows' <;> rfl
    rw [if_neg hbest] at h ⊢
    have hsum : fn ∈ ["SUM".toList, "AVG".toList] := by
      simp only [List.mem_cons, List.not_mem_nil, or_false] at hfn ⊢
      tauto
    have hreads : (∀ i' type', some (i, type) = some (i', type') → fn ∈ ["SUM".toList, "AVG".toList] →
        ∀ row ∈ rows', SumReads type' (row[i']?.getD [])) ↔
        ∀ cell ∈ rows'.map fun row => row[i]?.getD [], SumReads type cell := by
      rw [List.forall_mem_map]
      constructor
      · intro hall
        exact hall i type rfl hsum
      · intro hall i' type' heq _
        obtain ⟨rfl, rfl⟩ := Prod.mk.inj (Option.some.inj heq)
        exact hall
    rw [hreads]
    generalize rows'.map (fun row => row[i]?.getD []) = cells
    cases type with
    | int =>
      dsimp only [SumReads]
      by_cases hnil : cells = []
      · rw [if_pos hnil, hnil]
        simp
      · rw [if_neg hnil, Option.isSome_map, mapM_isSome_iff]
    | float =>
      dsimp only [SumReads]
      by_cases hnil : cells = []
      · rw [if_pos hnil, hnil]
        simp
      · rw [if_neg hnil, Option.isSome_map, mapM_isSome_iff]
    | _ => exact absurd h (by simp)

omit [CDouble] in
theorem parseAggregateCall_fn {column fn arg : CStr}
    (h : parseAggregateCall column = some (fn, arg)) :
    fn ∈ ["COUNT".toList, "SUM".toList, "AVG".toList, "MIN".toList, "MAX".toList] := by
  unfold parseAggregateCall at h
  split at h
  · dsimp only at h
    split at h
    · exact absurd h (by simp)
    · split at h
      · rename_i hfn
        rw [← (Prod.mk.inj (Option.some.inj h)).1]
        exact hfn.1
      · exact absurd h (by simp)
  · exact absurd h (by simp)

theorem buildRowsetForAggregate_isSome_iff {column fn arg : CStr} {schema : List ColDef}
    {rows : List Row} (h : (buildRowsetForAggregate column fn arg schema rows).isSome)
    (hfn : fn ∈ ["COUNT".toList, "SUM".toList, "AVG".toList, "MIN".toList, "MAX".toList])
    (rows' : List Row) :
    (buildRowsetForAggregate column fn arg schema rows').isSome ↔
      ∀ i, findSchemaIndex schema arg = some i → fn ∈ ["SUM".toList, "AVG".toList] →
        ∀ row ∈ rows', SumReads (columnType schema i) (row[i]?.getD []) := by
  unfold buildRowsetForAggregate at h ⊢
  by_cases hstar : arg = ['*']
  · rw [if_pos hstar] at h ⊢
    dsimp only at h ⊢
    rw [Option.isSome_map] at h ⊢
    -- `SUM(*)` has no column to add up, so this is a `COUNT`
    have hcount : fn ∉ ["SUM".toList, "AVG".toList] := by
      intro hsum
      have hnone : evaluateAggregate fn none rows = none := by
        simp only [List.mem_cons, List.not_mem_nil, or_false] at hsum
        rcases hsum with rfl | rfl <;> rfl
      rw [hnone] at h
      exact absurd h (by simp)
    rw [evaluateAggregate_isSome_iff h hfn]
    exact iff_of_true (fun i type _ hsum => absurd hsum hcount) fun i _ hsum => absurd hsum hcount
  · rw [if_neg hstar] at h ⊢
    cases hi : findSchemaIndex schema arg with
    | none =>
      rw [hi] at h
      exact absurd h (by simp)
    | some i =>
      rw [hi] at h
      dsimp only at h ⊢
      rw [Option.isSome_map] at h ⊢
      rw [evaluateAggregate_isSome_iff h hfn]
      constructor
      · intro hall i' hi' hsum
        obtain rfl := Option.some.inj hi'
        exact hall i _ rfl hsum
      · intro hall i' type heq hsum
        obtain ⟨rfl, rfl⟩ := Prod.mk.inj (Option.some.inj heq)
        exact hall i rfl hsum

/-- **Where some rows make a result, others do as well if a sum can read their cells.** -/
theorem buildRowset_isSome_iff {sql : ParsedSQL} {schema : List ColDef} {rows : List Row}
    (h : (buildRowset sql schema rows).isSome) (rows' : List Row) :
    (buildRowset sql schema rows').isSome ↔ SumReadable sql schema rows' := by
  have hsort : (sortSelection sql schema rows).isSome := by
    unfold buildRowset at h
    cases hsorted : sortSelection sql schema rows with
    | none =>
      rw [hsorted] at h
      exact absurd h (by simp)
    | some sorted => rfl
  obtain ⟨sorted, hsorted⟩ := Option.isSome_iff_exists.mp hsort
  obtain ⟨sorted', hsorted', hperm⟩ := sortSelection_of_isSome hsort rows'
  have hplain : buildRowset sql schema rows = buildRowsetFromSelection sql schema sorted →
      buildRowset sql schema rows' = buildRowsetFromSelection sql schema sorted' →
      (buildRowset sql schema rows').isSome := by
    intro heq heq'
    rw [heq, buildRowsetFromSelection, Option.isSome_map] at h
    rw [heq', buildRowsetFromSelection, Option.isSome_map]
    exact h
  cases hcolumns : sql.columns with
  | nil =>
    refine iff_of_true (hplain ?_ ?_) fun column fn arg i hone => ?_
    · rw [buildRowset, hsorted, hcolumns]
    · rw [buildRowset, hsorted', hcolumns]
    · exact absurd (hcolumns.symm.trans hone) (by simp)
  | cons column columns =>
    cases columns with
    | cons column' columns =>
      refine iff_of_true (hplain ?_ ?_) fun column fn arg i hone => ?_
      · rw [buildRowset, hsorted, hcolumns]
      · rw [buildRowset, hsorted', hcolumns]
      · exact absurd (hcolumns.symm.trans hone) (by simp)
    | nil =>
      cases hcall : parseAggregateCall column with
      | none =>
        refine iff_of_true (hplain (buildRowset_plain hsorted hcolumns hcall)
          (buildRowset_plain hsorted' hcolumns hcall)) fun column' fn arg i hone hcall' => ?_
        obtain rfl := List.cons.inj (hcolumns.symm.trans hone) |>.1
        exact absurd (hcall.symm.trans hcall') (by simp)
      | some call =>
        obtain ⟨fn, arg⟩ := call
        rw [buildRowset_call hsorted hcolumns hcall] at h
        rw [buildRowset_call hsorted' hcolumns hcall,
          buildRowsetForAggregate_isSome_iff h (parseAggregateCall_fn hcall)]
        constructor
        · intro hall column' fn' arg' i hone hcall' hsum hi row hrow
          obtain rfl := List.cons.inj (hcolumns.symm.trans hone) |>.1
          obtain ⟨rfl, rfl⟩ := Prod.mk.inj (Option.some.inj (hcall.symm.trans hcall'))
          exact hall i hi hsum row (hperm.mem_iff.mpr hrow)
        · intro hall i hi hsum row hrow
          exact hall column fn arg i hcolumns hcall hsum hi row (hperm.mem_iff.mp hrow)

/-! ## The way to the rows -/

/-- What a sum adds up in the rows that `find` leads to can be read. -/
def SumsRead (st : Storage) (sql : ParsedSQL)
    (find : Storage → Path → List ColDef → Option (List Row)) : Prop :=
  ∀ path schema rows, (openSelect st sql.table).1 = some (path, schema) →
    find st path schema = some rows → SumReadable sql schema rows

/-- The file of the table can be read, and some of its rows make a result. -/
def Loaded (st : Storage) (sql : ParsedSQL) : Prop :=
  ∃ path schema rows selection, (openSelect st sql.table).1 = some (path, schema) ∧
    (st.files path).bind (loadTableRows · schema.length) = some rows ∧
    (buildRowset sql schema selection).isSome

section Ways

variable {st st' : Storage} {sql : ParsedSQL}
  {find : Storage → Path → List ColDef → Option (List Row)}

theorem selectBy_fst (hfind : ∀ st st' : Storage, st'.files = st.files → find st' = find st) :
    (selectBy find st sql.table sql).1 = (openSelect st sql.table).1.bind fun p =>
      (find st p.1 p.2).bind (buildRowset sql p.2) := by
  obtain ⟨paths, hsnd⟩ := openSelect_snd st sql.table
  unfold selectBy
  rcases hopen : openSelect st sql.table with ⟨_ | ⟨path, schema⟩, st₁⟩ <;> rw [hopen] at hsnd
  · rfl
  · obtain rfl : st₁ = { st with pathCache := paths } := hsnd
    dsimp only
    rw [hfind st { st with pathCache := paths } rfl, Option.bind_some]

/-- A scan that gives a result has read the file. -/
theorem loaded_of_scan (h : (storageSelectResult st sql.table sql).1.isSome) : Loaded st sql := by
  have hfind : ∀ st st' : Storage, st'.files = st.files →
      (fun path schema => scanRows st' path schema sql) = fun path schema => scanRows st path schema sql := by
    intro st st' hfiles
    funext path schema
    rw [scanRows, hfiles, scanRows]
  rw [storageSelectResult, selectBy_fst hfind] at h
  obtain ⟨rs, hrs⟩ := Option.isSome_iff_exists.mp h
  obtain ⟨⟨path, schema⟩, hopen, hrs⟩ := Option.bind_eq_some_iff.mp hrs
  obtain ⟨selection, hscan, hrs⟩ := Option.bind_eq_some_iff.mp hrs
  dsimp only at hscan hrs
  unfold scanRows at hscan
  cases hload : (st.files path).bind (loadTableRows · schema.length) with
  | none =>
    rw [hload] at hscan
    exact absurd hscan (by simp)
  | some rows => exact ⟨path, schema, rows, selection, hopen, hload, by rw [hrs]; rfl⟩

theorem Loaded.congr (hsame : SameAnswers sql.table st st') : Loaded st' sql ↔ Loaded st sql := by
  unfold Loaded
  rw [hsame.openSelect, hsame.files]

theorem SumsRead.congr (hfind : ∀ st st' : Storage, st'.files = st.files → find st' = find st)
    (hsame : SameAnswers sql.table st st') : SumsRead st' sql find ↔ SumsRead st sql find := by
  unfold SumsRead
  rw [hsame.openSelect, hfind st st' hsame.files]

/-- **A way gives a result whose sum can be read, or it leaves the table to the next way.** The file
may have been opened before; `st` is where the statement began. -/
theorem selectBy_cases (hfind : ∀ st st' : Storage, st'.files = st.files → find st' = find st)
    (hfinds : ∀ st path schema rows, (st.files path).bind (loadTableRows · schema.length) = some rows →
      (find st path schema).isSome) (hsame : SameAnswers sql.table st st') :
    (∃ rs st₁, selectBy find st' sql.table sql = (some rs, st₁) ∧ SumsRead st sql find) ∨
      ∃ st₁, selectBy find st' sql.table sql = (none, st₁) ∧ SameAnswers sql.table st st₁ ∧
        (Loaded st sql → ¬ SumsRead st sql find) := by
  rw [← SumsRead.congr hfind hsame, ← Loaded.congr hsame]
  have hfst := @selectBy_fst _ st' sql find hfind
  have hsnd := (selectBy_snd_eq find st' sql.table sql) ▸ sameAnswers_openSelect st' sql.table
  rcases hres : selectBy find st' sql.table sql with ⟨_ | rs, st₁⟩ <;> rw [hres] at hfst hsnd
  · refine .inr ⟨st₁, rfl, hsame.trans hsnd, fun hloaded hsums => ?_⟩
    obtain ⟨path, schema, rows, selection, hopen, hload, hsome⟩ := hloaded
    obtain ⟨found, hfound⟩ := Option.isSome_iff_exists.mp (hfinds st' path schema rows hload)
    rw [hopen, Option.bind_some, hfound, Option.bind_some] at hfst
    have hbuilds := (buildRowset_isSome_iff hsome found).mpr (hsums path schema found hopen hfound)
    rw [← hfst] at hbuilds
    exact absurd hbuilds (by simp)
  · refine .inl ⟨rs, st₁, rfl, ?_⟩
    intro path schema rows hopen hrows
    rw [hopen, Option.bind_some, hrows, Option.bind_some] at hfst
    exact (buildRowset_isSome_iff (by rw [← hfst]; rfl) rows).mp (by rw [← hfst]; rfl)

omit [CDouble] in
theorem loadRowAtIndex_isSome {path : Path} {width : ℕ} {rows : List Row}
    (h : (st.files path).bind (loadTableRows · width) = some rows) (rowIndex : ℤ) :
    (loadRowAtIndex st path width rowIndex).isSome := by
  by_cases hneg : rowIndex < 0
  · rw [loadRowAtIndex, if_pos hneg]
    rfl
  · have heq := loadRowAtIndex_eq h rowIndex.toNat
    rw [Int.toNat_of_nonneg (by omega)] at heq
    rw [heq]
    rfl

end Ways

/-! ## When an index answers -/

/-- The tree of the table, as `storage_ensure_index` leaves it. -/
def tableTree (e : Engine) (sql : ParsedSQL) : Option BPTree :=
  indexRegistryGet (ensureIndex e.storage sql.table) sql.table

/-- The rows with the given numbers have cells that a sum can read. -/
def RowsRead (e : Engine) (sql : ParsedSQL) (indices : List ℤ) : Prop :=
  SumsRead e.storage sql fun st path schema => fetchRows st sql.table path schema indices

/-- The row with the given number has a cell that a sum can read. -/
def RowRead (e : Engine) (sql : ParsedSQL) (rowIndex : ℤ) : Prop :=
  SumsRead e.storage sql fun st path schema => loadRowAtIndex st path schema.length rowIndex

/-- The table has a tree, the two bounds are integers, and what is summed can be read. -/
def RangeServed (e : Engine) (sql : ParsedSQL) (clause : WhereClause) : Prop :=
  ∃ tree from' to', tableTree e sql = some tree ∧ parseBetweenBounds clause = some (from', to') ∧
    ∀ indices, rangeRows tree from' to' 28 16 = some indices → RowsRead e sql indices

/-- The table has a tree, the literal is an integer, and what is summed can be read. -/
def PointServed (e : Engine) (sql : ParsedSQL) (clause : WhereClause) : Prop :=
  ∃ tree id, tableTree e sql = some tree ∧ parseIntLiteral clause.value = some id ∧
    RowRead e sql (bptreeSearch tree id)

/-- The words with the prefix fit into the array, and what is summed can be read. -/
def PrefixServed (e : Engine) (sql : ParsedSQL) (pre : CStr) : Prop :=
  (trieSearchPrefix e.trie pre dictionaryTrieMaxRows).length < dictionaryTrieMaxRows ∧
    RowsRead e sql ((trieSearchPrefix e.trie pre dictionaryTrieMaxRows).insertionSort (· ≤ ·))

/-- The index that the condition asks for can answer it. -/
structure Served (e : Engine) (sql : ParsedSQL) : Prop where
  range : ∀ clause, shouldUseIdRange sql = some clause → RangeServed e sql clause
  point : ∀ clause, shouldUseIdIndex sql = some clause → PointServed e sql clause
  words : ∀ pre, shouldUseTriePrefix sql = some pre → e.trieReady = true → PrefixServed e sql pre

omit [CDouble] in
theorem shouldUseIdIndex_of_range {sql : ParsedSQL} {clause : WhereClause}
    (h : shouldUseIdRange sql = some clause) : shouldUseIdIndex sql = none := by
  unfold shouldUseIdRange at h
  unfold shouldUseIdIndex
  split at h
  · split at h
    · rename_i hboth
      rw [if_neg]
      intro hequal
      rw [hequal.2] at hboth
      exact absurd hboth.2 (by decide)
    · exact absurd h (by simp)
  · exact absurd h (by simp)

omit [CDouble] in
theorem shouldUseTriePrefix_of_index {sql : ParsedSQL} {clause : WhereClause}
    (h : shouldUseIdIndex sql = some clause) : shouldUseTriePrefix sql = none := by
  unfold shouldUseIdIndex at h
  unfold shouldUseTriePrefix
  split at h
  · split at h
    · rename_i hboth
      dsimp only
      rw [if_neg]
      intro hlike
      rw [hboth.2] at hlike
      exact absurd hlike.2.2.1 (by decide)
    · exact absurd h (by simp)
  · exact absurd h (by simp)

section Paths

variable {e : Engine} {sql : ParsedSQL} {path : SelectPath} {rs : RowSet} {st : Storage}

/-- The rows with the given numbers, where the statement began in `e`. -/
theorem rowIndices_cases (hsame : SameAnswers sql.table e.storage st) (indices : List ℤ) :
    (∃ rs st₁, storageSelectResultByRowIndices st sql.table sql indices = (some rs, st₁) ∧
        RowsRead e sql indices) ∨
      ∃ st₁, storageSelectResultByRowIndices st sql.table sql indices = (none, st₁) ∧
        SameAnswers sql.table e.storage st₁ ∧ (Loaded e.storage sql → ¬ RowsRead e sql indices) := by
  refine selectBy_cases (fun st st' hfiles => ?_) (fun st path schema rows hload => ?_) hsame
  · funext path schema
    rw [fetchRows, hfiles, fetchRows]
  · unfold fetchRows
    split
    · rfl
    · rw [hload]
      rfl

theorem rowIndex_cases (hsame : SameAnswers sql.table e.storage st) (rowIndex : ℤ) :
    (∃ rs st₁, storageSelectResultByRowIndex st sql.table sql rowIndex = (some rs, st₁) ∧
        RowRead e sql rowIndex) ∨
      ∃ st₁, storageSelectResultByRowIndex st sql.table sql rowIndex = (none, st₁) ∧
        SameAnswers sql.table e.storage st₁ ∧ (Loaded e.storage sql → ¬ RowRead e sql rowIndex) := by
  refine selectBy_cases (fun st st' hfiles => ?_)
    (fun st path schema rows hload => loadRowAtIndex_isSome hload rowIndex) hsame
  funext path schema
  rw [loadRowAtIndex, hfiles, loadRowAtIndex]

theorem scan_rows (hsame : SameAnswers sql.table e.storage st)
    (h : (match storageSelectResult st sql.table sql with
      | (some rs, st) => (Outcome.rows .scan rs, { e with storage := st })
      | (none, st) => (.status false, { e with storage := st })).1 = .rows path rs) :
    path = .scan ∧ Loaded e.storage sql := by
  rcases hres : storageSelectResult st sql.table sql with ⟨_ | rs', st'⟩ <;> rw [hres] at h
  · exact absurd h (by simp)
  · refine ⟨(Outcome.rows.inj h).1.symm, (Loaded.congr hsame).mp (loaded_of_scan ?_)⟩
    rw [hres]
    rfl

/-- Behind the tree, the rows come from the trie if it can answer, and from a scan otherwise. -/
theorem selectUnindexed_rows (hsame : SameAnswers sql.table e.storage st)
    (h : (selectUnindexed e st sql).1 = .rows path rs) :
    (path = .scan → Loaded e.storage sql) ∧ (path ≠ .scan ↔ ∃ pre,
      shouldUseTriePrefix sql = some pre ∧ e.trieReady = true ∧ PrefixServed e sql pre) := by
  unfold selectUnindexed at h
  cases hpre : shouldUseTriePrefix sql with
  | none =>
    rw [hpre] at h
    obtain ⟨rfl, hloaded⟩ := scan_rows hsame h
    refine ⟨fun _ => hloaded, iff_of_false (fun hne => hne rfl) ?_⟩
    simp
  | some pre =>
    rw [hpre] at h
    dsimp only at h
    by_cases hready : e.trieReady = true
    · rw [if_pos hready] at h
      have hserved : (∃ pre', some pre = some pre' ∧ e.trieReady = true ∧ PrefixServed e sql pre') ↔
          PrefixServed e sql pre := by
        simp [hready]
      rw [hserved]
      by_cases hmany : dictionaryTrieMaxRows ≤ (trieSearchPrefix e.trie pre dictionaryTrieMaxRows).length
      · have hnone : selectPrefix e st sql pre = (none, st) := if_pos hmany
        rw [hnone] at h
        obtain ⟨rfl, hloaded⟩ := scan_rows hsame h
        exact ⟨fun _ => hloaded, iff_of_false (fun hne => hne rfl) fun hfew => absurd hfew.1 (by omega)⟩
      · have hselect : selectPrefix e st sql pre = storageSelectResultByRowIndices st sql.table sql
            ((trieSearchPrefix e.trie pre dictionaryTrieMaxRows).insertionSort (· ≤ ·)) := if_neg hmany
        rcases rowIndices_cases hsame
          ((trieSearchPrefix e.trie pre dictionaryTrieMaxRows).insertionSort (· ≤ ·)) with
          ⟨rs', st₁, hres, hread⟩ | ⟨st₁, hres, hsame₁, hunread⟩
        · rw [hselect, hres] at h
          obtain rfl := (Outcome.rows.inj h).1
          exact ⟨fun heq => absurd heq (by decide), iff_of_true (by decide) ⟨by omega, hread⟩⟩
        · rw [hselect, hres] at h
          obtain ⟨rfl, hloaded⟩ := scan_rows hsame₁ h
          exact ⟨fun _ => hloaded,
            iff_of_false (fun hne => hne rfl) fun hfew => hunread hloaded hfew.2⟩
    · rw [if_neg hready] at h
      obtain ⟨rfl, hloaded⟩ := scan_rows hsame h
      refine ⟨fun _ => hloaded, iff_of_false (fun hne => hne rfl) ?_⟩
      intro hserved
      obtain ⟨-, -, htrue, -⟩ := hserved
      exact hready htrue

/-- Where the trie is not asked, the rest is a scan. -/
theorem selectUnindexed_scanned (hsame : SameAnswers sql.table e.storage st)
    (hpre : shouldUseTriePrefix sql = none) (h : (selectUnindexed e st sql).1 = .rows path rs) :
    path = .scan ∧ Loaded e.storage sql := by
  obtain ⟨hloaded, hpath⟩ := selectUnindexed_rows hsame h
  by_cases hscan : path = .scan
  · exact ⟨hscan, hloaded hscan⟩
  · obtain ⟨pre, hasked, -⟩ := hpath.mp hscan
    exact absurd (hpre.symm.trans hasked) (by simp)

theorem executeSelect_range_rows {clause : WhereClause} (hclause : shouldUseIdRange sql = some clause)
    (h : (executeSelect e sql).1 = .rows path rs) : path ≠ .scan ↔ RangeServed e sql clause := by
  have hsame := sameAnswers_ensureIndex e.storage sql.table
  have hpre := shouldUseTriePrefix_of_range hclause
  unfold executeSelect selectRange at h
  unfold RangeServed tableTree
  rw [hclause] at h
  dsimp only at h
  cases htree : indexRegistryGet (ensureIndex e.storage sql.table) sql.table with
  | none =>
    rw [htree] at h
    obtain ⟨rfl, -⟩ := selectUnindexed_scanned hsame hpre h
    simp
  | some tree =>
    rw [htree] at h
    cases hbounds : parseBetweenBounds clause with
    | none =>
      rw [hbounds] at h
      obtain ⟨rfl, -⟩ := selectUnindexed_scanned hsame hpre h
      simp
    | some bounds =>
      obtain ⟨from', to'⟩ := bounds
      rw [hbounds] at h
      dsimp only at h
      cases hrows : rangeRows tree from' to' 28 16 with
      | none =>
        rw [hrows] at h
        exact absurd h (by simp)
      | some indices =>
        rw [hrows] at h
        dsimp only at h
        rcases rowIndices_cases hsame indices with
          ⟨rs', st₁, hres, hread⟩ | ⟨st₁, hres, hsame₁, hunread⟩
        · rw [hres] at h
          obtain rfl := (Outcome.rows.inj h).1
          refine iff_of_true (by decide) ⟨tree, from', to', rfl, rfl, fun indices' hindices => ?_⟩
          obtain rfl := Option.some.inj (hrows.symm.trans hindices)
          exact hread
        · rw [hres] at h
          obtain ⟨rfl, hloaded⟩ := selectUnindexed_scanned hsame₁ hpre h
          refine iff_of_false (fun hne => hne rfl) fun hserved => ?_
          obtain ⟨tree', a, b, htree', hbounds', hread⟩ := hserved
          obtain rfl := Option.some.inj htree'
          obtain ⟨rfl, rfl⟩ := Prod.mk.inj (Option.some.inj hbounds')
          exact hunread hloaded (hread indices hrows)

theorem executeSelect_point_rows {clause : WhereClause} (hclause : shouldUseIdIndex sql = some clause)
    (hrange : shouldUseIdRange sql = none) (h : (executeSelect e sql).1 = .rows path rs) :
    path ≠ .scan ↔ PointServed e sql clause := by
  have hsame := sameAnswers_ensureIndex e.storage sql.table
  have hpre := shouldUseTriePrefix_of_index hclause
  unfold executeSelect selectPoint at h
  unfold PointServed tableTree
  rw [hrange, hclause] at h
  dsimp only at h
  cases htree : indexRegistryGet (ensureIndex e.storage sql.table) sql.table with
  | none =>
    rw [htree] at h
    obtain ⟨rfl, -⟩ := selectUnindexed_scanned hsame hpre h
    simp
  | some tree =>
    rw [htree] at h
    cases hid : parseIntLiteral clause.value with
    | none =>
      rw [hid] at h
      obtain ⟨rfl, -⟩ := selectUnindexed_scanned hsame hpre h
      simp
    | some id =>
      rw [hid] at h
      dsimp only at h
      rcases rowIndex_cases hsame (bptreeSearch tree id) with
        ⟨rs', st₁, hres, hread⟩ | ⟨st₁, hres, hsame₁, hunread⟩
      · rw [hres] at h
        obtain rfl := (Outcome.rows.inj h).1
        exact iff_of_true (by decide) ⟨tree, id, rfl, rfl, hread⟩
      · rw [hres] at h
        obtain ⟨rfl, hloaded⟩ := selectUnindexed_scanned hsame₁ hpre h
        refine iff_of_false (fun hne => hne rfl) fun hserved => ?_
        obtain ⟨tree', id', htree', hid', hread⟩ := hserved
        obtain rfl := Option.some.inj htree'
        obtain rfl := Option.some.inj hid'
        exact hunread hloaded hread

end Paths

/-! ## The report and the execution -/

section Agrees

variable {mem : ℕ → Uninit} {stray : ℕ → Bool} {e : Engine} {text : CStr} {x : Executed}
  {sql : ParsedSQL} {path : SelectPath} {rs : RowSet}

omit [CDouble] in
/-- The text of `engine_explain` holds this flag. -/
theorem engineExplain_indexUsed (h : (engineExplain mem e text).ok = true) :
    ∃ sql, (engineExplain mem e text).json = explainText e sql ∧
      explainIndexUsed mem e text = (explainPlan e sql).2.1 := by
  unfold engineExplain at h ⊢
  unfold explainIndexUsed
  cases hsplit : splitNextStatement (text.length + 1) text with
  | none =>
    rw [hsplit] at h
    exact absurd h (by simp)
  | some split =>
    rw [hsplit] at h
    dsimp only at h ⊢
    cases hparse : parseSql (mem 0) split.1 with
    | none =>
      rw [hparse] at h
      exact absurd h (by simp)
    | some sql =>
      rw [hparse] at h
      dsimp only at h ⊢
      by_cases hunknown : sql.type = .unknown
      · rw [if_pos hunknown] at h
        exact absurd h (by simp)
      · rw [if_neg hunknown, if_neg hunknown]
        exact ⟨sql, rfl, rfl⟩

omit [CDouble] in
/-- What the report says about a `SELECT`. -/
theorem explainPlan_indexUsed (htype : sql.type = .select) :
    (explainPlan e sql).2.1 = ((shouldUseIdRange sql).isSome || (shouldUseIdIndex sql).isSome ||
      ((shouldUseTriePrefix sql).isSome && e.trieReady)) := by
  unfold explainPlan
  rw [htype]
  dsimp only
  cases shouldUseIdRange sql with
  | some clause => rfl
  | none =>
    cases shouldUseIdIndex sql with
    | some clause => rfl
    | none =>
      cases shouldUseTriePrefix sql with
      | none => rfl
      | some pre => cases e.trieReady <;> rfl

/-- The report agrees with the way that the rows were found. -/
theorem explainPlan_agrees_iff (htype : sql.type = .select)
    (h : (executeSelect e sql).1 = .rows path rs) :
    (explainPlan e sql).2.1 = decide (path ≠ .scan) ↔ Served e sql := by
  rw [explainPlan_indexUsed htype]
  cases hrange : shouldUseIdRange sql with
  | some clause =>
    have hindex := shouldUseIdIndex_of_range hrange
    have hpre := shouldUseTriePrefix_of_range hrange
    have hpath := executeSelect_range_rows hrange h
    rw [Option.isSome_some, Bool.true_or, Bool.true_or, eq_comm, decide_eq_true_iff, hpath]
    constructor
    · intro hserved
      refine ⟨fun clause' hclause => ?_, by simp [hindex], by simp [hpre]⟩
      obtain rfl := Option.some.inj (hrange.symm.trans hclause)
      exact hserved
    · intro hserved
      exact hserved.range clause hrange
  | none =>
    cases hindex : shouldUseIdIndex sql with
    | some clause =>
      have hpre := shouldUseTriePrefix_of_index hindex
      have hpath := executeSelect_point_rows hindex hrange h
      rw [Option.isSome_some, Bool.or_true, Bool.true_or, eq_comm, decide_eq_true_iff, hpath]
      constructor
      · intro hserved
        refine ⟨by simp [hrange], fun clause' hclause => ?_, by simp [hpre]⟩
        obtain rfl := Option.some.inj (hindex.symm.trans hclause)
        exact hserved
      · intro hserved
        exact hserved.point clause hindex
    | none =>
      have hsame := sameAnswers_ensureIndex e.storage sql.table
      unfold executeSelect at h
      rw [hrange, hindex] at h
      obtain ⟨-, hpath⟩ := selectUnindexed_rows hsame h
      rw [Option.isSome_none, Bool.or_self, Bool.false_or, Bool.eq_iff_iff, decide_eq_true_iff, hpath,
        Bool.and_eq_true, Option.isSome_iff_exists]
      constructor
      · intro hasked
        refine ⟨by simp [hrange], by simp [hindex], fun pre hpre hready => ?_⟩
        obtain ⟨pre', hpre', -, hserved⟩ := hasked.mp ⟨⟨pre, hpre⟩, hready⟩
        obtain rfl := Option.some.inj (hpre.symm.trans hpre')
        exact hserved
      · intro hserved
        constructor
        · intro hasked
          obtain ⟨⟨pre, hpre⟩, hready⟩ := hasked
          exact ⟨pre, hpre, hready, hserved.words pre hpre hready⟩
        · intro hfound
          obtain ⟨pre, hpre, hready, -⟩ := hfound
          exact ⟨⟨pre, hpre⟩, hready⟩

/-- The first statement of a text, which is the one that `engine_explain` parses. -/
theorem executed_head {rest : List Executed} (h : executed mem stray e text = x :: rest) :
    x.before = e ∧ ∃ stmt behind, splitNextStatement (text.length + 1) text = some (stmt, behind) ∧
      x.parsed = parseSql (mem 0) stmt := by
  unfold executed at h
  cases hsplit : splitNextStatement (text.length + 1) text with
  | none =>
    rw [execTrace, hsplit] at h
    exact absurd h (by simp)
  | some split =>
    obtain ⟨stmt, behind⟩ := split
    rw [execTrace_succ _ _ _ _ _ hsplit] at h
    obtain ⟨rfl, -⟩ := List.cons.inj h
    exact ⟨rfl, stmt, behind, rfl, rfl⟩

omit [CDouble] in
theorem indexUsed_of_rows (h : x.outcome = .rows path rs) : x.indexUsed = decide (path ≠ .scan) := by
  unfold Executed.indexUsed
  rw [h]
  cases path <;> rfl

/-- **The report about a SELECT that succeeds agrees with its execution if and only if the index can
answer.** -/
theorem explain_agrees_iff (hone : executed mem stray e text = [x]) (hparsed : x.parsed = some sql)
    (htype : sql.type = .select) (hok : x.ok = true) :
    explainIndexUsed mem e text = (executed mem stray e text).any Executed.indexUsed ↔
      Served e sql := by
  have hran : x.Ran := executed_ran x (by rw [hone]; simp)
  obtain ⟨hbefore, stmt, behind, hsplit, hstmt⟩ := executed_head hone
  have hexplain : explainIndexUsed mem e text = (explainPlan e sql).2.1 := by
    unfold explainIndexUsed
    rw [hsplit]
    dsimp only
    rw [← hstmt, hparsed]
    exact if_neg (by rw [htype]; decide)
  rcases hran.select hparsed htype with ⟨path, rs, hrows, -⟩ | ⟨-, hfalse⟩
  · have hselect : (executeSelect e sql).1 = .rows path rs := by
      have hout := hran.outcome_eq hparsed
      rw [executeStatement, htype, hbefore] at hout
      exact hout.symm.trans hrows
    rw [hone, hexplain, List.any_cons, List.any_nil, Bool.or_false, indexUsed_of_rows hrows]
    exact explainPlan_agrees_iff htype hselect
  · exact absurd (hok.symm.trans hfalse) (by simp)

end Agrees

omit [CDouble]

/-- `SELECT * FROM t WHERE id = ` and a number. -/
def idSelect (id : CStr) : ParsedSQL :=
  { parsedNew with
    type := .select, table := "t".toList, columns := [['*']], conds := [⟨"id".toList, ['='], id, []⟩] }

/-- A SELECT of one row. -/
theorem explain_agrees_iff_seven :
    explainIndexUsed (fun _ => .zero) (@engineInit .whole fourRows)
        "SELECT * FROM t WHERE id = 7;".toList =
      (@executed .whole (fun _ => .zero) (fun _ => false) (@engineInit .whole fourRows)
        "SELECT * FROM t WHERE id = 7;".toList).any Executed.indexUsed ↔
      @Served .whole (@engineInit .whole fourRows) (idSelect ['7']) := by
  have hdone : (@executed .whole (fun _ => .zero) (fun _ => false) (@engineInit .whole fourRows)
      "SELECT * FROM t WHERE id = 7;".toList).map (fun x => (x.parsed, x.ok)) =
        [(some (idSelect ['7']), true)] := by
    decide +kernel
  obtain ⟨x, hone, hx⟩ := List.map_eq_singleton_iff.mp hdone
  obtain ⟨hparsed, hok⟩ := Prod.mk.inj hx
  exact @explain_agrees_iff .whole _ _ _ _ x (idSelect ['7']) hone hparsed rfl hok

/-- **The id does not fit into an `int`: the report names the tree, and the execution reads the whole
table.** -/
theorem explain_overflow :
    (@executed .whole (fun _ => .zero) (fun _ => false) (@engineInit .whole fourRows)
        "SELECT * FROM t WHERE id = 5000000000;".toList).map
          (fun x => (x.parsed, x.ok, x.indexUsed)) = [(some (idSelect "5000000000".toList), true, false)] ∧
      explainIndexUsed (fun _ => .zero) (@engineInit .whole fourRows)
        "SELECT * FROM t WHERE id = 5000000000;".toList = true := by
  decide +kernel

end MiniSql

import MiniSql.Engine
import MiniSql.Storage.Aggregates
import MiniSql.Storage.Matching
import MiniSql.Storage.Paths
import MiniSql.Where.Meaning

/-!
# The least and the greatest cell

`SELECT MIN(c)` and `SELECT * … ORDER BY c ASC` with the same conditions go the same way to the
same rows, and they keep the same one of them. But the result of `MIN` is printed into an array
of 256 bytes, and what does not fit there is lost.

## Main definitions

* `extremeSelect`, `firstSelect` — the two statements.
* `SameRows` — two results that were built from the same rows.

## Main results

* `executeSelect_sameRows` — columns, order and limit do not change the way to the rows.
* `extreme_agrees_iff` — when the two statements agree.
-/

namespace MiniSql
open CText

/-- `SELECT MIN(c)` or `SELECT MAX(c)` with the conditions of a statement. -/
def extremeSelect (sql : ParsedSQL) (call : CStr) : ParsedSQL :=
  { sql with columns := [call], orderBy := none, limit := -1 }

/-- `SELECT *` with the conditions of a statement and an order. -/
def firstSelect (sql : ParsedSQL) (order : OrderBy) : ParsedSQL :=
  { sql with columns := [['*']], orderBy := some order, limit := -1 }

/-- The two statements look for the same rows. -/
structure SameSearch (sql sql' : ParsedSQL) : Prop where
  table : sql'.table = sql.table
  conds : sql'.conds = sql.conds
  whereLogic : sql'.whereLogic = sql.whereLogic
  whereLinks : sql'.whereLinks = sql.whereLinks

variable [CDouble]

/-! ## The rows do not depend on what is made of them -/

/-- A statement that has a result for every selection of rows. -/
def Builds (schema : List ColDef) (sql : ParsedSQL) : Prop :=
  ∀ rows : List Row, (∀ row ∈ rows, row.length = schema.length) →
    (buildRowset sql schema rows).isSome = true

/-- Two results that were built from the same rows, or two failures. -/
inductive SameRows (schema : List ColDef) (sql sql' : ParsedSQL) : Outcome → Outcome → Prop
  | rows {way rows rs rs'} (width : ∀ row ∈ rows, row.length = schema.length)
      (build : buildRowset sql schema rows = some rs)
      (build' : buildRowset sql' schema rows = some rs') :
      SameRows schema sql sql' (.rows way rs) (.rows way rs')
  | status (ok : Bool) : SameRows schema sql sql' (.status ok) (.status ok)

section Search

variable {sql sql' : ParsedSQL} {schema : List ColDef} {st : Storage} {path : Path}

theorem rowMatchesDelete_same (h : SameSearch sql sql') (row : Row) :
    rowMatchesDelete schema row sql' = rowMatchesDelete schema row sql := by
  have hlink : ∀ i, resolveWhereLink sql' i = resolveWhereLink sql i := by
    intro i
    simp only [resolveWhereLink, h.conds, h.whereLogic, h.whereLinks]
  have hand : linkIsAnd sql' = linkIsAnd sql := by
    funext i
    rw [linkIsAnd, hlink, linkIsAnd]
  have hor : linkIsOr sql' = linkIsOr sql := by
    funext i
    rw [linkIsOr, hlink, linkIsOr]
  have hevaluates : Evaluates schema row sql' ↔ Evaluates schema row sql := by
    rw [Evaluates, Evaluates, h.conds, hand, hor]
  have hreading : standardReading schema row sql' = standardReading schema row sql := by
    simp only [standardReading, andRuns, conditionValue, h.conds, hand]
  rw [rowMatchesDelete_eq, rowMatchesDelete_eq]
  exact if_congr hevaluates (congrArg some hreading) rfl

theorem collectMatchingRows_same (h : SameSearch sql sql') (rows : List Row) :
    collectMatchingRows sql' schema rows = collectMatchingRows sql schema rows := by
  induction rows with
  | nil => rfl
  | cons row rows ih =>
    rw [collectMatchingRows, collectMatchingRows, ih, rowMatchesDelete_same h]

theorem scanRows_same (h : SameSearch sql sql') (st : Storage) (path : Path)
    (schema : List ColDef) : scanRows st path schema sql' = scanRows st path schema sql := by
  simp only [scanRows, h.conds, collectMatchingRows_same h]

/-! ### The rows have as many cells as there are columns -/

theorem collectMatchingRows_subset {rows selection : List Row}
    (h : collectMatchingRows sql schema rows = some selection) : ∀ row ∈ selection, row ∈ rows := by
  induction rows generalizing selection with
  | nil =>
    obtain rfl : [] = selection := Option.some.inj h
    simp
  | cons row rows ih =>
    rw [collectMatchingRows] at h
    split at h
    · exact absurd h (by simp)
    · obtain ⟨rest, hrest, hselection⟩ := Option.map_eq_some_iff.mp h
      intro r hr
      rw [← hselection] at hr
      split at hr
      · rcases List.mem_cons.mp hr with rfl | hr
        · simp
        · exact List.mem_cons_of_mem _ (ih hrest r hr)
      · exact List.mem_cons_of_mem _ (ih hrest r hr)

omit [CDouble] in
theorem length_of_loaded {rows : List Row}
    (h : (st.files path).bind (loadTableRows · schema.length) = some rows) :
    ∀ row ∈ rows, row.length = schema.length := by
  obtain ⟨file, -, hload⟩ := Option.bind_eq_some_iff.mp h
  exact fun row hrow => (rowOk_of_loadTableRows hload row hrow).1

theorem length_of_scanRows {rows : List Row} (h : scanRows st path schema sql = some rows) :
    ∀ row ∈ rows, row.length = schema.length := by
  unfold scanRows at h
  split at h
  · exact absurd h (by simp)
  · rename_i all hall
    split at h
    · exact fun row hrow => length_of_loaded hall row (collectMatchingRows_subset h row hrow)
    · exact absurd h (by simp)

omit [CDouble] in
theorem length_of_loadRowLoop {clean : Bool} {records : List CStr} {width n : ℕ} {rows : List Row}
    (h : loadRowLoop width clean records n = some rows) : ∀ row ∈ rows, row.length = width := by
  induction records generalizing n with
  | nil =>
    rw [loadRowLoop] at h
    split at h
    · obtain rfl : [] = rows := Option.some.inj h
      simp
    · exact absurd h (by simp)
  | cons record records ih =>
    rw [loadRowLoop.eq_def] at h
    dsimp only at h
    split at h
    · exact absurd h (by simp)
    · rename_i row hrow
      cases n with
      | zero =>
        obtain rfl : [row] = rows := Option.some.inj h
        intro r hr
        obtain rfl := List.mem_singleton.mp hr
        exact (rowOk_of_parseRow hrow).1
      | succ n => exact ih h

omit [CDouble] in
theorem length_of_loadRowAtIndex {rowIndex : ℤ} {rows : List Row}
    (h : loadRowAtIndex st path schema.length rowIndex = some rows) :
    ∀ row ∈ rows, row.length = schema.length := by
  unfold loadRowAtIndex at h
  split at h
  · obtain rfl : [] = rows := Option.some.inj h
    simp
  · split at h
    · exact absurd h (by simp)
    · exact length_of_loadRowLoop h

theorem length_decodeBinaryRow (schema : List ColDef) (buf : CStr) :
    (decodeBinaryRow schema buf).length = schema.length := by
  induction schema generalizing buf with
  | nil => rfl
  | cons col schema ih => simp [decodeBinaryRow, ih]

theorem length_of_loadBinaryRows (schema : List ColDef) (file : CStr) (indices : List ℤ) :
    ∀ row ∈ loadBinaryRowsByIndices schema file indices, row.length = schema.length := by
  induction indices with
  | nil => simp [loadBinaryRowsByIndices]
  | cons i indices ih =>
    rw [loadBinaryRowsByIndices]
    dsimp only
    split
    · exact ih
    · split
      · simp
      · intro row hrow
        rcases List.mem_cons.mp hrow with rfl | hrow
        · exact length_decodeBinaryRow _ _
        · exact ih row hrow

theorem length_of_fetchRows {table : CStr} {indices : List ℤ} {rows : List Row}
    (h : fetchRows st table path schema indices = some rows) :
    ∀ row ∈ rows, row.length = schema.length := by
  unfold fetchRows at h
  split at h
  · obtain rfl := Option.some.inj h
    exact length_of_loadBinaryRows _ _ _
  · obtain ⟨all, hall, rfl⟩ := Option.map_eq_some_iff.mp h
    intro row hrow
    obtain ⟨i, -, hi⟩ := List.mem_filterMap.mp hrow
    split at hi
    · exact absurd hi (by simp)
    · exact length_of_loaded hall row (List.mem_of_getElem? hi)

/-! ### The same way -/

/-- What two statements get from one way to find rows: results from the same rows, or nothing and
the same state, in which the table is still there. -/
def SameStage (schema : List ColDef) (sql sql' : ParsedSQL) (path : Path)
    (result result' : Option RowSet × Storage) : Prop :=
  (∃ rows rs rs', (∀ row ∈ rows, row.length = schema.length) ∧
    buildRowset sql schema rows = some rs ∧ buildRowset sql' schema rows = some rs' ∧
      result.1 = some rs ∧ result'.1 = some rs') ∨
  (result.1 = none ∧ result'.1 = none ∧ result'.2 = result.2 ∧
    (openSelect result.2 sql.table).1 = some (path, schema))

theorem selectBy_snd_eq (find : Storage → Path → List ColDef → Option (List Row)) (st : Storage)
    (table : CStr) (sql : ParsedSQL) : (selectBy find st table sql).2 = (openSelect st table).2 := by
  unfold selectBy
  rcases openSelect st table with ⟨_ | ⟨path, schema⟩, st₁⟩ <;> rfl

theorem selectBy_same {find find' : Storage → Path → List ColDef → Option (List Row)}
    (hfind : find' = find) (hopen : (openSelect st sql.table).1 = some (path, schema))
    (hwidth : ∀ st rows, find st path schema = some rows → ∀ row ∈ rows, row.length = schema.length)
    (hbuilds : Builds schema sql) (hbuilds' : Builds schema sql') :
    SameStage schema sql sql' path (selectBy find st sql.table sql)
      (selectBy find' st sql.table sql') := by
  have hsnd := selectBy_snd_eq find' st sql.table sql
  have hsnd' := selectBy_snd_eq find' st sql.table sql'
  have hopen' := (sameAnswers_openSelect st sql.table).openSelect.trans hopen
  subst hfind
  cases hrows : find' (openSelect st sql.table).2 path schema with
  | none =>
    refine .inr ⟨?_, ?_, hsnd'.trans hsnd.symm, hsnd ▸ hopen'⟩
    all_goals
      unfold selectBy
      rcases hos : openSelect st sql.table with ⟨found, st₁⟩
      rw [hos] at hopen hrows
      obtain rfl : found = some (path, schema) := hopen
      simp only at hrows
      simp only [hrows, Option.bind_none]
  | some rows =>
    have hlen := hwidth _ rows hrows
    obtain ⟨rs, hrs⟩ := Option.isSome_iff_exists.mp (hbuilds rows hlen)
    obtain ⟨rs', hrs'⟩ := Option.isSome_iff_exists.mp (hbuilds' rows hlen)
    refine .inl ⟨rows, rs, rs', hlen, hrs, hrs', ?_, ?_⟩
    all_goals
      unfold selectBy
      rcases hos : openSelect st sql.table with ⟨found, st₁⟩
      rw [hos] at hopen hrows
      obtain rfl : found = some (path, schema) := hopen
      simp only at hrows
      simp only [hrows, Option.bind_some, hrs, hrs']

section Stages

variable (h : SameSearch sql sql') (hbuilds : Builds schema sql) (hbuilds' : Builds schema sql')
include h hbuilds hbuilds'

theorem storageSelectResult_same (hopen : (openSelect st sql.table).1 = some (path, schema)) :
    SameStage schema sql sql' path (storageSelectResult st sql.table sql)
      (storageSelectResult st sql'.table sql') := by
  rw [h.table]
  refine selectBy_same ?_ hopen (fun st rows hrows => length_of_scanRows hrows) hbuilds hbuilds'
  funext st path schema
  exact scanRows_same h st path schema

theorem rowIndices_same (hopen : (openSelect st sql.table).1 = some (path, schema))
    (indices : List ℤ) :
    SameStage schema sql sql' path (storageSelectResultByRowIndices st sql.table sql indices)
      (storageSelectResultByRowIndices st sql'.table sql' indices) := by
  rw [h.table]
  exact selectBy_same rfl hopen (fun st rows hrows => length_of_fetchRows hrows) hbuilds hbuilds'

theorem rowIndex_same (hopen : (openSelect st sql.table).1 = some (path, schema)) (rowIndex : ℤ) :
    SameStage schema sql sql' path (storageSelectResultByRowIndex st sql.table sql rowIndex)
      (storageSelectResultByRowIndex st sql'.table sql' rowIndex) := by
  rw [h.table]
  exact selectBy_same rfl hopen (fun st rows hrows => length_of_loadRowAtIndex hrows) hbuilds
    hbuilds'

theorem scan_same (hopen : (openSelect st sql.table).1 = some (path, schema)) (e : Engine) :
    SameRows schema sql sql'
      (match storageSelectResult st sql.table sql with
        | (some rs, st) => (Outcome.rows .scan rs, { e with storage := st })
        | (none, st) => (.status false, { e with storage := st })).1
      (match storageSelectResult st sql'.table sql' with
        | (some rs, st) => (Outcome.rows .scan rs, { e with storage := st })
        | (none, st) => (.status false, { e with storage := st })).1 := by
  have hsame := storageSelectResult_same h hbuilds hbuilds' hopen
  generalize storageSelectResult st sql.table sql = result,
    storageSelectResult st sql'.table sql' = result' at hsame ⊢
  obtain ⟨found, st₁⟩ := result
  obtain ⟨found', st₁'⟩ := result'
  rcases hsame with ⟨rows, rs, rs', hwidth, hrs, hrs', rfl, rfl⟩ | ⟨rfl, rfl, -, -⟩
  · exact .rows hwidth hrs hrs'
  · exact .status false

theorem selectPrefix_same (hopen : (openSelect st sql.table).1 = some (path, schema)) (e : Engine)
    (pre : CStr) :
    SameStage schema sql sql' path (selectPrefix e st sql pre) (selectPrefix e st sql' pre) := by
  unfold selectPrefix
  dsimp only
  split
  · exact .inr ⟨rfl, rfl, rfl, hopen⟩
  · exact rowIndices_same h hbuilds hbuilds' hopen _

theorem selectUnindexed_same (hopen : (openSelect st sql.table).1 = some (path, schema))
    (e : Engine) :
    SameRows schema sql sql' (selectUnindexed e st sql).1 (selectUnindexed e st sql').1 := by
  have hstarts : shouldUseTriePrefix sql' = shouldUseTriePrefix sql := by
    simp only [shouldUseTriePrefix, h.conds, h.table]
  unfold selectUnindexed
  rw [hstarts]
  cases shouldUseTriePrefix sql with
  | none => exact scan_same h hbuilds hbuilds' hopen e
  | some pre =>
    by_cases hready : e.trieReady = true
    · simp only [if_pos hready]
      have hsame := selectPrefix_same h hbuilds hbuilds' hopen e pre
      generalize selectPrefix e st sql pre = result,
        selectPrefix e st sql' pre = result' at hsame ⊢
      obtain ⟨found, st₁⟩ := result
      obtain ⟨found', st₁'⟩ := result'
      rcases hsame with ⟨rows, rs, rs', hwidth, hrs, hrs', rfl, rfl⟩ | ⟨rfl, rfl, rfl, hopen'⟩
      · exact .rows hwidth hrs hrs'
      · exact scan_same h hbuilds hbuilds' hopen' e
    · simp only [if_neg hready]
      exact scan_same h hbuilds hbuilds' hopen e

/-- **The columns, the order and the limit of a SELECT do not change the way to its rows.** -/
theorem executeSelect_sameRows {e : Engine}
    (hopen : (openSelect e.storage sql.table).1 = some (path, schema)) :
    SameRows schema sql sql' (executeSelect e sql).1 (executeSelect e sql').1 := by
  have hopen₁ : (openSelect (ensureIndex e.storage sql.table) sql.table).1 = some (path, schema) :=
    (sameAnswers_ensureIndex e.storage sql.table).openSelect.trans hopen
  have hrange : shouldUseIdRange sql' = shouldUseIdRange sql := by
    simp only [shouldUseIdRange, h.conds]
  have hid : shouldUseIdIndex sql' = shouldUseIdIndex sql := by
    simp only [shouldUseIdIndex, h.conds]
  have hrest := @selectUnindexed_same _ sql sql' schema _ path h hbuilds hbuilds' hopen₁ e
  unfold executeSelect selectRange selectPoint
  rw [hrange, hid, h.table]
  dsimp only
  cases shouldUseIdRange sql with
  | some clause =>
    dsimp only
    cases indexRegistryGet (ensureIndex e.storage sql.table) sql.table with
    | none => exact hrest
    | some tree =>
      cases parseBetweenBounds clause with
      | none => exact hrest
      | some bounds =>
        dsimp only
        cases rangeRows tree bounds.1 bounds.2 28 16 with
        | none => exact .status false
        | some indices =>
          have hsame := rowIndices_same h hbuilds hbuilds' hopen₁ indices
          rw [h.table] at hsame
          dsimp only
          generalize storageSelectResultByRowIndices (ensureIndex e.storage sql.table) sql.table sql
              indices = result,
            storageSelectResultByRowIndices (ensureIndex e.storage sql.table) sql.table sql'
              indices = result' at hsame ⊢
          obtain ⟨found, st₁⟩ := result
          obtain ⟨found', st₁'⟩ := result'
          rcases hsame with ⟨rows, rs, rs', hwidth, hrs, hrs', rfl, rfl⟩ | ⟨rfl, rfl, rfl, hopen'⟩
          · exact .rows hwidth hrs hrs'
          · exact selectUnindexed_same h hbuilds hbuilds' hopen' e
  | none =>
    cases shouldUseIdIndex sql with
    | none => exact hrest
    | some clause =>
      dsimp only
      cases indexRegistryGet (ensureIndex e.storage sql.table) sql.table with
      | none => exact hrest
      | some tree =>
        cases parseIntLiteral clause.value with
        | none => exact hrest
        | some id =>
          have hsame := rowIndex_same h hbuilds hbuilds' hopen₁ (bptreeSearch tree id)
          rw [h.table] at hsame
          dsimp only
          generalize storageSelectResultByRowIndex (ensureIndex e.storage sql.table) sql.table sql
              (bptreeSearch tree id) = result,
            storageSelectResultByRowIndex (ensureIndex e.storage sql.table) sql.table sql'
              (bptreeSearch tree id) = result' at hsame ⊢
          obtain ⟨found, st₁⟩ := result
          obtain ⟨found', st₁'⟩ := result'
          rcases hsame with ⟨rows, rs, rs', hwidth, hrs, hrs', rfl, rfl⟩ | ⟨rfl, rfl, rfl, hopen'⟩
          · exact .rows hwidth hrs hrs'
          · exact selectUnindexed_same h hbuilds hbuilds' hopen' e

end Stages

end Search

/-! ## Both keep the same row -/

section Extremes

variable {e : Engine} {sql : ParsedSQL} {schema : List ColDef} {path : Path} {call arg column : CStr}
  {i : ℕ} {wantMax : Bool}

/-- The type of a column. -/
def columnType (schema : List ColDef) (i : ℕ) : ColumnType :=
  ((schema[i]?).map (·.type)).getD .varchar

theorem buildRowset_extreme
    (hcall : parseAggregateCall call = some (if wantMax then "MAX".toList else "MIN".toList, arg))
    (harg : arg ≠ ['*']) (hi : findSchemaIndex schema arg = some i) (selection : List Row) :
    buildRowset (extremeSelect sql call) schema selection = some ⟨[call], [[match selection with
      | [] => []
      | row :: rows =>
        ((bestRow (columnType schema i) i (!wantMax) row rows)[i]?.getD []).take 255]]⟩ := by
  have hsort : sortSelection (extremeSelect sql call) schema selection = some selection := rfl
  rw [buildRowset_call hsort rfl hcall]
  unfold buildRowsetForAggregate
  rw [if_neg harg, hi]
  dsimp only
  rw [← columnType]
  cases selection with
  | nil =>
    have hempty : evaluateAggregate (if wantMax then "MAX".toList else "MIN".toList)
        (some (i, columnType schema i)) [] = some [] := by
      cases wantMax <;> rfl
    rw [hempty]
    rfl
  | cons row rows =>
    rw [evaluateAggregate_best rfl]
    rfl

theorem buildRowset_first (order : OrderBy) (selection : List Row) :
    buildRowset (firstSelect sql order) schema selection =
      (sortSelection (firstSelect sql order) schema selection).bind
        (buildRowset (selectAll sql) schema) := by
  rw [buildRowset]
  cases sortSelection (firstSelect sql order) schema selection <;> rfl

/-- `MIN` or `MAX` returns the cell of the first row of the order. -/
def ExtremeAgrees (e : Engine) (sql : ParsedSQL) (call column : CStr) (i : ℕ) (wantMax : Bool) :
    Prop :=
  ∃ way value names first rest,
    (executeSelect e (extremeSelect sql call)).1 = .rows way ⟨[call], [[value]]⟩ ∧
    (executeSelect e (firstSelect sql ⟨column, !wantMax⟩)).1 = .rows way ⟨names, first :: rest⟩ ∧
    value = first[i]?.getD []

/-- **`MIN` and `MAX` return the cell of the first row of the order exactly when this cell, the
best one of the rows that match, fits 255 bytes.** -/
theorem extreme_agrees_iff (hopen : (openSelect e.storage sql.table).1 = some (path, schema))
    (hcall : parseAggregateCall call = some (if wantMax then "MAX".toList else "MIN".toList, arg))
    (harg : arg ≠ ['*']) (hi : findSchemaIndex schema arg = some i) (hcolumn : column ≠ [])
    (hi' : findSchemaIndex schema column = some i) {way : SelectPath} {names : List CStr}
    {row : Row} {rows : List Row}
    (hall : (executeSelect e (selectAll sql)).1 = .rows way ⟨names, row :: rows⟩) :
    ExtremeAgrees e sql call column i wantMax ↔
      ((bestRow (columnType schema i) i (!wantMax) row rows)[i]?.getD []).length ≤ 255 := by
  set best := bestRow (columnType schema i) i (!wantMax) row rows with hbest
  have hbuildsAll : Builds schema (selectAll sql) := fun selection hwidth => by
    rw [buildRowset_selectAll hwidth]
    rfl
  have hbuildsExtreme : Builds schema (extremeSelect sql call) := fun selection _ => by
    rw [buildRowset_extreme hcall harg hi]
    rfl
  have hsorted : ∀ selection, ∃ sorted,
      sortSelection (firstSelect sql ⟨column, !wantMax⟩) schema selection = some sorted ∧
        sorted.Perm selection := by
    intro selection
    unfold sortSelection firstSelect
    dsimp only
    rw [if_neg hcolumn, hi']
    exact ⟨_, rfl, exchangeSort_perm _ _ _⟩
  have hbuildsFirst : Builds schema (firstSelect sql ⟨column, !wantMax⟩) := by
    intro selection hwidth
    obtain ⟨sorted, hsort, hperm⟩ := hsorted selection
    rw [buildRowset_first, hsort, Option.bind_some]
    exact hbuildsAll sorted fun r hr => hwidth r (hperm.mem_iff.mp hr)
  have hextreme := @executeSelect_sameRows _ (selectAll sql) (extremeSelect sql call) schema path
    ⟨rfl, rfl, rfl, rfl⟩ hbuildsAll hbuildsExtreme e hopen
  have hfirst := @executeSelect_sameRows _ (selectAll sql) (firstSelect sql ⟨column, !wantMax⟩)
    schema path ⟨rfl, rfl, rfl, rfl⟩ hbuildsAll hbuildsFirst e hopen
  rw [hall] at hextreme hfirst
  generalize hout : (executeSelect e (extremeSelect sql call)).1 = out at hextreme
  generalize hout' : (executeSelect e (firstSelect sql ⟨column, !wantMax⟩)).1 = out' at hfirst
  obtain ⟨rest, hhead⟩ : ∃ rest, sortSelection (firstSelect sql ⟨column, !wantMax⟩) schema
      (row :: rows) = some (best :: rest) :=
    @sortSelection_head _ (firstSelect sql ⟨column, !wantMax⟩) schema ⟨column, !wantMax⟩ i rfl
      hcolumn hi' row rows
  cases hextreme with
  | @rows _ selection _ rs' hwidth hbuild hbuild' =>
    rw [buildRowset_selectAll hwidth] at hbuild
    obtain ⟨rfl, rfl⟩ := RowSet.mk.inj (Option.some.inj hbuild)
    rw [buildRowset_extreme hcall harg hi] at hbuild'
    obtain rfl := Option.some.inj hbuild'
    cases hfirst with
    | @rows _ selection' _ rs'' hwidth' hfirst' hfirst'' =>
      rw [buildRowset_selectAll hwidth'] at hfirst'
      obtain ⟨-, rfl⟩ := RowSet.mk.inj (Option.some.inj hfirst')
      have hperm : (best :: rest).Perm (row :: rows) := by
        obtain ⟨sorted, hsort, hperm⟩ := hsorted (row :: rows)
        obtain rfl := Option.some.inj (hhead.symm.trans hsort)
        exact hperm
      rw [buildRowset_first, hhead, Option.bind_some, buildRowset_selectAll
        fun r hr => hwidth r (hperm.mem_iff.mp hr)] at hfirst''
      obtain rfl := Option.some.inj hfirst''
      unfold ExtremeAgrees
      rw [hout, hout']
      constructor
      · rintro ⟨_, value, _, first, _, hvalue, hrow, rfl⟩
        have hfirstRow : best = first := by
          have hrows := (RowSet.mk.inj (Outcome.rows.inj hrow).2).2
          exact (List.cons.inj hrows).1
        have htake : (best[i]?.getD []).take 255 = best[i]?.getD [] := by
          have hcells := (RowSet.mk.inj (Outcome.rows.inj hvalue).2).2
          rw [hfirstRow]
          simpa [← hbest, hfirstRow] using hcells
        rw [List.take_eq_self_iff] at htake
        exact htake
      · intro hlen
        refine ⟨way, best[i]?.getD [], _, best, rest, ?_, rfl, rfl⟩
        dsimp only
        rw [← hbest, List.take_of_length_le hlen]

end Extremes

/-- A process on a table `t (c VARCHAR)` with the given rows. -/
def lettersEngine (rows : CStr) : Engine :=
  ⟨.start fun path =>
    if path = schemaPath .nested "t".toList then some "c,VARCHAR\n".toList
    else if path = tablePath .nested "t".toList then some rows
    else none, trieCreate, false⟩

/-- `SELECT … FROM t`. -/
def lettersSelect : ParsedSQL := { parsedNew with type := .select, table := "t".toList }

omit [CDouble] in
/-- `MAX` of two short cells. -/
theorem extreme_agrees_short :
    @ExtremeAgrees .whole (lettersEngine "a\nb\n".toList) lettersSelect "MAX(c)".toList ['c'] 0 true ↔
      ((@bestRow .whole .varchar 0 false [['a']] [[['b']]])[0]?.getD []).length ≤ 255 :=
  @extreme_agrees_iff .whole (lettersEngine "a\nb\n".toList) lettersSelect [⟨['c'], .varchar⟩]
    (tablePath .nested "t".toList) "MAX(c)".toList ['c'] ['c'] 0 true (by decide +kernel)
    (by decide +kernel) (by decide) (by decide) (by decide) (by decide) .scan [['c']] [['a']]
    [[['b']]] (by decide +kernel)

omit [CDouble] in
/-- The only cell of the column has 256 bytes. -/
theorem extreme_truncates :
    ¬ @ExtremeAgrees .whole (lettersEngine (List.replicate 256 'a' ++ "\n".toList)) lettersSelect
      "MIN(c)".toList ['c'] 0 false := by
  rintro ⟨way, value, names, first, rest, hmin, hfirst, hvalue⟩
  have hmin' : (@executeSelect .whole (lettersEngine (List.replicate 256 'a' ++ "\n".toList))
      (extremeSelect lettersSelect "MIN(c)".toList)).1 =
        .rows .scan ⟨["MIN(c)".toList], [[List.replicate 255 'a']]⟩ := by decide +kernel
  have hfirst' : (@executeSelect .whole (lettersEngine (List.replicate 256 'a' ++ "\n".toList))
      (firstSelect lettersSelect ⟨['c'], true⟩)).1 =
        .rows .scan ⟨[['c']], [[List.replicate 256 'a']]⟩ := by decide +kernel
  have hcell : value = List.replicate 255 'a' := by
    have := (RowSet.mk.inj (Outcome.rows.inj (hmin.symm.trans hmin')).2).2
    exact (List.cons.inj (List.cons.inj this).1).1
  have hrow : first = [List.replicate 256 'a'] := by
    have := (RowSet.mk.inj (Outcome.rows.inj (hfirst.symm.trans hfirst')).2).2
    exact (List.cons.inj this).1
  rw [hcell, hrow] at hvalue
  have hlen : (List.replicate 255 'a').length = (List.replicate 256 'a').length :=
    congrArg List.length hvalue
  rw [List.length_replicate, List.length_replicate] at hlen
  omega

end MiniSql

import MiniSql.Storage.Calls

/-!
# The types of the stored cells

`storage_update` checks its values against the types of their columns, and the `WHERE` clause of
every statement relies on it: one stored cell that does not parse makes the whole scan fail.
`storage_insert` checks nothing, so cells are of the right type only as long as every inserted
value is.

## Main definitions

* `TypedRow` — every cell passes the check of `validate_update_value_for_type`.
* `TypedCall` — an INSERT whose values pass this check; every UPDATE and DELETE.
* `SoundWhere` — existing columns, allowed operators and literals of the right type.

## Main results

* `typed_of_run` — the cells after a run of typed calls, and what it means for `WHERE` clauses.
-/

namespace MiniSql
open CText

variable [CDouble]

/-- Every cell has the type of its column. -/
def TypedRow (schema : List ColDef) (row : Row) : Prop :=
  ∀ (j : ℕ) (col : ColDef) (v : CStr), schema[j]? = some col → row[j]? = some v →
    validateUpdateValueForType col.type v = true

/-- The type check for the column with a name, if there is one. -/
def typedFor (schema : List ColDef) (column value : CStr) : Bool :=
  ((findSchemaIndex schema column).bind (schema[·]?)).all fun col =>
    validateUpdateValueForType col.type value

/-- Every value of an INSERT has the type of the column it is given for. -/
def typedValues (schema : List ColDef) (columns values : List CStr) : Bool :=
  if columns = [] then (schema.zip values).all fun p => validateUpdateValueForType p.1.type p.2
  else (columns.zip values).all fun p => typedFor schema p.1 p.2

/-- The automatic id has the type of the `id` column. -/
def typedAutoId (st : Storage) (table : CStr) (schema : List ColDef) : Bool :=
  (findSchemaIndex schema "id".toList).all fun idCol => (st.autoId table idCol).all fun id =>
    typedFor schema "id".toList (intText id)

/-- An INSERT of values that have the types of their columns; every other call. -/
def TypedCall (st : Storage) : Call → Prop
  | .insert table columns values => ∀ schema ∈ st.tableSchema table,
    typedValues schema columns values = true ∧
      (userHasId values.length columns = .ok false → typedAutoId st table schema = true)
  | .update _ _ => True
  | .delete _ _ => True

instance (st : Storage) : ∀ c : Call, Decidable (TypedCall st c)
  | .insert _ _ _ => inferInstanceAs (Decidable (∀ schema ∈ _, _))
  | .update _ _ => isTrue trivial
  | .delete _ _ => isTrue trivial

/-- Every column of the clause exists and allows its operator, every literal has the type of its
column, and the conditions are joined by `AND` and `OR`. -/
def SoundWhere (schema : List ColDef) (sql : ParsedSQL) : Prop :=
  (∀ clause ∈ sql.conds, ∃ i col, findSchemaIndex schema clause.column = some i ∧
    schema[i]? = some col ∧ isSupportedOperator clause.op = true ∧
      isSupportedOperatorForType col.type clause.op = true ∧
        validateLiteralForType col.type (stripOptionalQuotes clause.value 256) = true) ∧
    (List.range sql.conds.length).all (validateLink sql) = true

/-! ## Inserted rows are typed -/

theorem typedFor_spec {schema : List ColDef} {column v : CStr} {j : ℕ} {col : ColDef}
    (h : typedFor schema column v = true) (hj : findSchemaIndex schema column = some j)
    (hcol : schema[j]? = some col) : validateUpdateValueForType col.type v = true := by
  rw [typedFor, hj, Option.bind_some, hcol] at h
  exact h

theorem typedValues_spec {schema : List ColDef} {columns values : List CStr}
    (h : typedValues schema columns values = true) {j : ℕ} {col : ColDef} {v : CStr}
    (hgive : Gives schema columns values j v) (hcol : schema[j]? = some col) :
    validateUpdateValueForType col.type v = true := by
  unfold typedValues at h
  rcases hgive with ⟨hnil, hv⟩ | ⟨i, c, hv, hc, hj⟩
  · rw [if_pos hnil, List.all_eq_true] at h
    refine h (col, v) (List.mem_iff_getElem?.mpr ⟨j, ?_⟩)
    rw [List.getElem?_zip_eq_some]
    exact ⟨hcol, hv⟩
  · have hne : columns ≠ [] := by
      rintro rfl
      exact absurd hc (by simp)
    rw [if_neg hne, List.all_eq_true] at h
    refine typedFor_spec (h (c, v) (List.mem_iff_getElem?.mpr ⟨i, ?_⟩)) hj hcol
    rw [List.getElem?_zip_eq_some]
    exact ⟨hc, hv⟩

theorem typedRow_insertedRow {st : Storage} {table : CStr} {columns values : List CStr}
    {schema : List ColDef} (hschema : st.tableSchema table = some schema)
    (htyped : TypedCall st (.insert table columns values)) {row : Row}
    (h : insertedRow st table columns values schema = some row) : TypedRow schema row := by
  obtain ⟨hvalues, hauto⟩ := htyped schema hschema
  intro j col v hcol hv
  rcases (insertedRow_cell h).2 j v hv with hgive | ⟨hidx, hno, id, hid, rfl⟩
  · exact typedValues_spec hvalues hgive hcol
  · have hid' := hauto hno
    rw [typedAutoId, hidx, Option.all_some, hid, Option.all_some] at hid'
    exact typedFor_spec hid' hidx hcol

/-- An UPDATE keeps a row typed: it has checked its values. -/
theorem typedRow_updateRow {schema : List ColDef} {sets : List SetClause} {indexes : List ℕ}
    {row row' : Row} (hsets : validateUpdateSetClause schema sets = some indexes)
    (hrow : TypedRow schema row) (h : applyUpdateToRow row sets indexes = some row') :
    TypedRow schema row' := by
  intro j col v hcol hv
  rcases updateSet_cell hsets h hv with hold | ⟨set, -, ⟨-, col', hcol', hvalid⟩, rfl⟩
  · exact hrow j col v hcol hold
  · obtain rfl := Option.some.inj (hcol.symm.trans hcol')
    exact hvalid

/-! ## The invariant -/

/-- The file of the table is written row by row, and all rows are typed. -/
def TypedTable (st : Storage) (table : CStr) : Prop :=
  ∀ schema, st.tableSchema table = some schema → ∃ rows : List Row,
    (st.content table).getD [] = rows.flatMap writeCsvRow ∧
      ∀ row ∈ rows, RowOk schema.length row ∧ TypedRow schema row

theorem TypedTable.of_same {st st' : Storage} {table : CStr} (h : TypedTable st table)
    (hsame : SameTable table st st') : TypedTable st' table := by
  intro schema hschema
  rw [hsame.content]
  exact h schema (hsame.tableSchema.symm.trans hschema)

/-- The rows that a rewriting reads are the rows that were written. -/
theorem TypedTable.rewritten {st : Storage} {table : CStr} (h : TypedTable st table)
    {plan : List ColDef → Option RowPlan} {kept : List Row}
    (hkept : rewrittenRows st table plan = some kept) :
    ∃ schema rowPlan rows, st.tableSchema table = some schema ∧ plan schema = some rowPlan ∧
      planRows rowPlan rows = some kept ∧
        ∀ row ∈ rows, RowOk schema.length row ∧ TypedRow schema row := by
  obtain ⟨schema, hschema, hkept⟩ := Option.bind_eq_some_iff.mp hkept
  obtain ⟨rowPlan, hplan, hkept⟩ := Option.bind_eq_some_iff.mp hkept
  obtain ⟨file, hfile, hkept⟩ := Option.bind_eq_some_iff.mp hkept
  obtain ⟨rows', hload, hkept⟩ := Option.bind_eq_some_iff.mp hkept
  obtain ⟨rows, hrows, hall⟩ := h schema hschema
  rw [hfile, Option.getD_some] at hrows
  have hback := loadTableRows_flatMap (tableSchema_ne_nil hschema) fun row hrow => (hall row hrow).1
  rw [← hrows] at hback
  obtain rfl := Option.some.inj (hload.symm.trans hback)
  exact ⟨schema, rowPlan, rows', hschema, hplan, hkept, hall⟩

/-- The table of a call that wrote all rows anew. -/
theorem typedTable_of_content {st : Storage} {table : CStr} {rows : List Row}
    (hcontent : (st.content table).getD [] = rows.flatMap writeCsvRow)
    (h : ∀ schema, st.tableSchema table = some schema →
      ∀ row ∈ rows, RowOk schema.length row ∧ TypedRow schema row) : TypedTable st table :=
  fun schema hschema => ⟨rows, hcontent, h schema hschema⟩

section Own

variable {st st' : Storage} {table : CStr}

theorem TypedTable.insert (hs : st.Sound) {columns values : List CStr}
    (hok : (Call.insert table columns values).Ok)
    (htyped : TypedCall st (.insert table columns values)) (h : TypedTable st table)
    (hexec : storageInsert st table columns values = (.ok (), st')) : TypedTable st' table := by
  obtain ⟨-, -, hschema', -⟩ := storageInsert_table hs hok.1 columns values
  obtain ⟨schema, row, hschema, hrow, hcontent⟩ := storageInsert_ok hs hok.1 hexec
  obtain ⟨rows, hrows, hall⟩ := h schema hschema
  rw [hexec] at hschema'
  have hfile : (st'.content table).getD [] = (rows ++ [row]).flatMap writeCsvRow := by
    rw [hcontent, withRow, Option.getD_some, hrows]
    simp
  refine typedTable_of_content hfile fun schema' hs' row' hrow' => ?_
  obtain rfl := Option.some.inj (hschema.symm.trans (hschema'.symm.trans hs'))
  rcases List.mem_append.mp hrow' with hold | hnew
  · exact hall row' hold
  · obtain rfl := List.mem_singleton.mp hnew
    exact ⟨rowOk_insertedRow hok.2 hrow, typedRow_insertedRow hschema htyped hrow⟩

theorem TypedTable.update (hs : st.Sound) {sql : ParsedSQL} (hok : (Call.update table sql).Ok)
    (h : TypedTable st table) (hexec : storageUpdate st table sql = (.ok (), st')) :
    TypedTable st' table := by
  obtain ⟨-, -, hschema', -⟩ := storageUpdate_table hs hok.1 sql
  obtain ⟨kept, hkept, hcontent⟩ := storageUpdate_ok hs hok.1 hexec
  obtain ⟨schema, rowPlan, rows, hschema, hplan, hkept, hall⟩ := h.rewritten hkept
  rw [hexec] at hschema'
  refine typedTable_of_content (by rw [hcontent, Option.getD_some]) fun schema' hs' row hrow => ?_
  obtain rfl := Option.some.inj (hschema.symm.trans (hschema'.symm.trans hs'))
  unfold updatePlan at hplan
  split at hplan
  · exact absurd hplan (by simp)
  · rename_i indexes hsets
    split at hplan
    · obtain rfl := Option.some.inj hplan
      obtain ⟨old, hold, rfl | ⟨-, hupdate⟩⟩ := mem_planRows_updateRow hkept hrow
      · exact hall row hold
      · exact ⟨rowOk_updateRow hok.2 (hall old hold).1 hupdate,
          typedRow_updateRow hsets (hall old hold).2 hupdate⟩
    · exact absurd hplan (by simp)

theorem TypedTable.delete (hs : st.Sound) {sql : ParsedSQL} (hok : (Call.delete table sql).Ok)
    (h : TypedTable st table) (hexec : storageDelete st table sql = (.ok (), st')) :
    TypedTable st' table := by
  obtain ⟨-, -, hschema', -⟩ := storageDelete_table hs hok sql
  obtain ⟨kept, hkept, hcontent⟩ := storageDelete_ok hs hok hexec
  obtain ⟨schema, rowPlan, rows, hschema, hplan, hkept, hall⟩ := h.rewritten hkept
  rw [hexec] at hschema'
  refine typedTable_of_content (by rw [hcontent, Option.getD_some]) fun schema' hs' row hrow => ?_
  obtain rfl := Option.some.inj (hschema.symm.trans (hschema'.symm.trans hs'))
  unfold deletePlan at hplan
  split at hplan
  · obtain rfl := Option.some.inj hplan
    exact hall row (mem_planRows_deleteRow hkept hrow)
  · exact absurd hplan (by simp)

end Own

/-- The invariant of a run of typed calls. -/
structure TypedStorage (st : Storage) : Prop where
  sound : st.Sound
  typed : ∀ table, PlainName table → TypedTable st table

theorem typedStorage_start {files : Path → Option CStr}
    (hempty : ∀ place table, (files (tablePath place table)).getD [] = []) :
    TypedStorage (.start files) where
  sound := sound_start files
  typed table _ schema _ := ⟨[], hempty _ _, by simp⟩

/-- What one typed call keeps. -/
theorem TypedStorage.step {st st' : Storage} {c : Call} (h : TypedStorage st) (hok : c.Ok)
    (htyped : TypedCall st c) (hstep : c.step st = some st') : TypedStorage st' := by
  have hexec := Call.step_eq_some.mp hstep
  have hsound := (Call.exec_sound h.sound hok).1
  have htouch := Call.touches_exec h.sound hok
  rw [hexec] at hsound htouch
  refine ⟨hsound, fun table hplain => ?_⟩
  by_cases hown : table = c.table
  · subst hown
    have hown := h.typed c.table hok.plain
    cases c with
    | insert => exact hown.insert h.sound hok htyped hexec
    | update => exact hown.update h.sound hok hexec
    | delete => exact hown.delete h.sound hok hexec
  · exact (h.typed table hplain).of_same (htouch.view hok.plain hplain hown)

/-! ## Conditions on typed rows -/

omit [CDouble] in
theorem compareOrderingResult_isSome {op : CStr} (hop : isSupportedOperator op = true)
    (hlike : op ≠ "LIKE".toList) (cmp : ℤ) : (compareOrderingResult cmp op).isSome = true := by
  unfold isSupportedOperator at hop
  unfold compareOrderingResult
  split_ifs <;> simp_all

/-- A comparison of values of the right type at an operator of this type has a result. -/
theorem compareValueByType_isSome {type : ColumnType} {left op right : CStr}
    (hop : isSupportedOperator op = true) (htype : isSupportedOperatorForType type op = true)
    (hleft : validateUpdateValueForType type left = true)
    (hright : validateLiteralForType type right = true) :
    (compareValueByType type left op right).isSome = true := by
  have hordering := fun hlike cmp => compareOrderingResult_isSome hop hlike cmp
  unfold isSupportedOperatorForType at htype
  unfold validateUpdateValueForType at hleft
  unfold validateLiteralForType at hright
  unfold compareValueByType
  cases type with
  | int =>
    obtain ⟨l, hl⟩ := Option.isSome_iff_exists.mp hleft
    obtain ⟨r, hr⟩ := Option.isSome_iff_exists.mp hright
    simp only [hl, hr]
    exact hordering (by simpa using htype) _
  | float =>
    obtain ⟨l, hl⟩ := Option.isSome_iff_exists.mp hleft
    obtain ⟨r, hr⟩ := Option.isSome_iff_exists.mp hright
    simp only [hl, hr]
    exact hordering (by simpa using htype) _
  | boolean =>
    obtain ⟨l, hl⟩ := Option.isSome_iff_exists.mp hleft
    obtain ⟨r, hr⟩ := Option.isSome_iff_exists.mp hright
    simp only [hl, hr]
    exact hordering (by simpa using htype) _
  | date => exact hordering (by simpa using htype) _
  | varchar =>
    dsimp only
    split
    · rfl
    · exact hordering ‹_› _
  | datetime =>
    have heq : op = "=".toList ∨ op = "!=".toList := by simpa using htype
    dsimp only
    rw [if_pos heq]
    refine hordering ?_ _
    rcases heq with rfl | rfl <;> decide

theorem evaluateSelectClause_isSome {schema : List ColDef} {row : Row} {sql : ParsedSQL}
    (hwhere : SoundWhere schema sql) (hlen : row.length = schema.length)
    (hrow : TypedRow schema row) {clause : WhereClause} (hmem : clause ∈ sql.conds) :
    (evaluateSelectClause schema row clause).isSome = true := by
  obtain ⟨i, col, hfind, hcol, hop, htype, hliteral⟩ := hwhere.1 clause hmem
  obtain ⟨hlt, -⟩ := List.getElem?_eq_some_iff.mp hcol
  have hlt' : i < row.length := by omega
  have hcell : row[i]? = some row[i] := List.getElem?_eq_getElem hlt'
  unfold evaluateSelectClause
  rw [hfind]
  dsimp only
  rw [hcol, hcell]
  dsimp only
  rw [if_neg (by simp [hop]), if_neg (by simp [htype]), if_neg (by simp [hliteral])]
  exact compareValueByType_isSome hop htype (hrow i col _ hcol hcell) hliteral

theorem matchLoop_isSome {schema : List ColDef} {row : Row} {sql : ParsedSQL}
    (hwhere : SoundWhere schema sql) (hlen : row.length = schema.length)
    (hrow : TypedRow schema row) {clauses : List WhereClause} {index : ℕ}
    (hsuffix : sql.conds.drop index = clauses) (hindex : 0 < index) (outMatch groupMatch : Bool) :
    (matchLoop schema row sql index clauses outMatch groupMatch).isSome = true := by
  induction clauses generalizing index outMatch groupMatch with
  | nil => rfl
  | cons clause clauses ih =>
    have hlt : index < sql.conds.length := by
      by_contra hge
      rw [List.drop_of_length_le (by omega)] at hsuffix
      exact absurd hsuffix (by simp)
    have hmem : clause ∈ sql.conds := List.mem_of_mem_drop (hsuffix ▸ List.mem_cons_self)
    have hrest : sql.conds.drop (index + 1) = clauses := by
      rw [← List.tail_drop, hsuffix, List.tail_cons]
    have hlink : equalsIgnoreCase (resolveWhereLink sql (index - 1)) "AND".toList = true ∨
        equalsIgnoreCase (resolveWhereLink sql (index - 1)) "OR".toList = true := by
      have hvalid := List.all_eq_true.mp hwhere.2 (index - 1) (List.mem_range.mpr (by omega))
      simp only [validateLink, Bool.or_eq_true, decide_eq_true_eq, or_assoc] at hvalid
      exact hvalid.resolve_left (by omega)
    obtain ⟨m, hm⟩ := Option.isSome_iff_exists.mp
      (evaluateSelectClause_isSome hwhere hlen hrow hmem)
    rw [matchLoop, hm]
    dsimp only
    split
    · exact ih hrest (by omega) _ _
    · rename_i hand
      rw [if_pos (hlink.resolve_left hand)]
      exact ih hrest (by omega) _ _

/-- **No condition fails on a typed row.** -/
theorem rowMatchesDelete_isSome {schema : List ColDef} {row : Row} {sql : ParsedSQL}
    (hwhere : SoundWhere schema sql) (hlen : row.length = schema.length)
    (hrow : TypedRow schema row) : (rowMatchesDelete schema row sql).isSome = true := by
  unfold rowMatchesDelete
  split
  · rfl
  · rename_i clause clauses hconds
    obtain ⟨m, hm⟩ := Option.isSome_iff_exists.mp
      (evaluateSelectClause_isSome hwhere hlen hrow (show clause ∈ sql.conds by simp [hconds]))
    rw [hm, Option.bind_some]
    exact matchLoop_isSome hwhere hlen hrow (by rw [hconds, List.drop_one, List.tail_cons])
      (by omega) _ _

theorem collectMatchingRows_isSome {schema : List ColDef} {sql : ParsedSQL} {rows : List Row}
    (h : ∀ row ∈ rows, (rowMatchesDelete schema row sql).isSome = true) :
    (collectMatchingRows sql schema rows).isSome = true := by
  rw [@collectMatchingRows_eq _ sql schema rows (fun row => (rowMatchesDelete schema row sql).getD false)]
  · rfl
  · intro row hrow
    obtain ⟨m, hm⟩ := Option.isSome_iff_exists.mp (h row hrow)
    rw [hm]
    rfl

omit [CDouble] in
theorem planRows_isSome {plan : RowPlan} {rows : List Row}
    (h : ∀ row ∈ rows, (plan row).isSome = true) : (planRows plan rows).isSome = true := by
  induction rows with
  | nil => rfl
  | cons row rows ih =>
    obtain ⟨kept, hkept⟩ := Option.isSome_iff_exists.mp (h row (by simp))
    rw [planRows_cons, hkept, Option.bind_some, Option.isSome_map]
    exact ih fun row hrow => h row (by simp [hrow])

omit [CDouble] in
theorem applyUpdateToRow_isSome {sets : List SetClause} {indexes : List ℕ} {row : Row}
    (h : ∀ i ∈ indexes, i < row.length) : (applyUpdateToRow row sets indexes).isSome = true := by
  induction sets generalizing indexes row with
  | nil => simp [applyUpdateToRow]
  | cons set sets ih =>
    cases indexes with
    | nil => simp [applyUpdateToRow]
    | cons i indexes =>
      have hi := h i (by simp)
      rw [applyUpdateToRow, if_neg (by omega)]
      exact ih fun j hj => by
        rw [List.length_set]
        exact h j (by simp [hj])

theorem updateRow_isSome {schema : List ColDef} {sql : ParsedSQL} {indexes : List ℕ} {row : Row}
    (hsets : validateUpdateSetClause schema sql.sets = some indexes)
    (hwhere : SoundWhere schema sql) (hlen : row.length = schema.length)
    (hrow : TypedRow schema row) : (updateRow schema sql indexes row).isSome = true := by
  obtain ⟨m, hm⟩ := Option.isSome_iff_exists.mp (rowMatchesDelete_isSome hwhere hlen hrow)
  unfold updateRow
  rw [hm]
  dsimp only
  split
  · rw [Option.isSome_map]
    refine applyUpdateToRow_isSome fun i hi => ?_
    obtain ⟨k, hk⟩ := List.mem_iff_getElem?.mp hi
    obtain ⟨hlen', hall⟩ := List.forall₂_iff_get.mp (validateUpdateSetClause_spec hsets)
    obtain ⟨hk₁, hk₂⟩ := List.getElem?_eq_some_iff.mp hk
    have hfind := (hall k (by omega) hk₁).1
    simp only [List.get_eq_getElem, hk₂] at hfind
    rw [hlen]
    exact findSchemaIndex_lt hfind
  · rfl

/-- What no stored row makes fail: the scan of a SELECT, a DELETE and an UPDATE that pass the
checks made before any row is read. -/
def NoRowFails (st : Storage) (table : CStr) (path : Path) (schema : List ColDef)
    (sql : ParsedSQL) : Prop :=
  (scanRows st path schema sql).isSome = true ∧
    (validateDeleteInput table sql = true → (deletePlan sql schema).isSome = true →
      (storageDelete st table sql).1 = .ok ()) ∧
    (validateUpdateInput table sql = true → (updatePlan sql schema).isSome = true →
      (storageUpdate st table sql).1 = .ok ())

theorem noRowFails {st : Storage} (hs : st.Sound) {table : CStr} (hplain : PlainName table)
    {schema : List ColDef} (hschema : st.tableSchema table = some schema) {file : CStr}
    (hfile : st.content table = some file) {rows : List Row}
    (hload : loadTableRows file schema.length = some rows)
    (htyped : ∀ row ∈ rows, TypedRow schema row) {sql : ParsedSQL}
    (hwhere : SoundWhere schema sql) : NoRowFails st table (st.tableFile table) schema sql := by
  have hok := rowOk_of_loadTableRows hload
  have hmatch : ∀ row ∈ rows, (rowMatchesDelete schema row sql).isSome = true :=
    fun row hrow => rowMatchesDelete_isSome hwhere (hok row hrow).1 (htyped row hrow)
  refine ⟨?_, fun hinput hplan => ?_, fun hinput hplan => ?_⟩
  · have hcolumns : (sql.conds.all fun c => (findSchemaIndex schema c.column).isSome) = true := by
      rw [List.all_eq_true]
      intro clause hmem
      obtain ⟨i, -, hfind, -⟩ := hwhere.1 clause hmem
      rw [hfind]
      rfl
    have hread : (st.files (st.tableFile table)).bind (loadTableRows · schema.length) = some rows := by
      change (st.content table).bind _ = _
      rw [hfile, Option.bind_some, hload]
    unfold scanRows
    rw [hread]
    dsimp only
    rw [if_pos hcolumns]
    exact collectMatchingRows_isSome hmatch
  · obtain ⟨-, -, -, hresult⟩ := storageDelete_table hs hplain sql
    obtain ⟨plan, hplan'⟩ := Option.isSome_iff_exists.mp hplan
    have hkept : (planRows plan rows).isSome = true := by
      unfold deletePlan at hplan'
      split at hplan'
      · obtain rfl := Option.some.inj hplan'
        refine planRows_isSome fun row hrow => ?_
        rw [deleteRow, Option.isSome_map]
        exact hmatch row hrow
      · exact absurd hplan' (by simp)
    obtain ⟨kept, hkept⟩ := Option.isSome_iff_exists.mp hkept
    have hrows : deletedRows st table sql = some kept := by
      rw [deletedRows, if_pos hinput, rewrittenRows, hschema, Option.bind_some, hplan',
        Option.bind_some, hfile, Option.bind_some, hload, Option.bind_some, hkept]
    rw [hrows] at hresult
    exact hresult.1
  · obtain ⟨-, -, -, hresult⟩ := storageUpdate_table hs hplain sql
    obtain ⟨plan, hplan'⟩ := Option.isSome_iff_exists.mp hplan
    have hkept : (planRows plan rows).isSome = true := by
      unfold updatePlan at hplan'
      split at hplan'
      · exact absurd hplan' (by simp)
      · rename_i indexes hsets
        split at hplan'
        · obtain rfl := Option.some.inj hplan'
          exact planRows_isSome fun row hrow =>
            updateRow_isSome hsets hwhere (hok row hrow).1 (htyped row hrow)
        · exact absurd hplan' (by simp)
    obtain ⟨kept, hkept⟩ := Option.isSome_iff_exists.mp hkept
    have hrows : updatedRows st table sql = some kept := by
      rw [updatedRows, if_pos hinput, rewrittenRows, hschema, Option.bind_some, hplan',
        Option.bind_some, hfile, Option.bind_some, hload, Option.bind_some, hkept]
    rw [hrows] at hresult
    exact hresult.1

/-- **After a run of successful calls on empty tables, in which every INSERT gives values of the
types of their columns, every stored cell has the type of its column, and no stored row makes a
sound `WHERE` clause fail.** -/
theorem typed_of_run {files : Path → Option CStr} {calls : List Call} {st : Storage}
    (hempty : ∀ place table, (files (tablePath place table)).getD [] = [])
    (hmeets : Runs.Meets Call.step (fun st c => c.Ok ∧ TypedCall st c) (.start files) calls)
    (hrun : Runs.run Call.step (.start files) calls = some st) {table : CStr}
    (hplain : PlainName table) {path : Path} {schema : List ColDef}
    (hopen : (openTable st table).1 = some (path, schema)) :
    ∃ rows, loadTableRows ((st.files path).getD []) schema.length = some rows ∧
      (∀ row ∈ rows, TypedRow schema row) ∧
        (st.files path ≠ none → ∀ sql, SoundWhere schema sql →
          NoRowFails st table path schema sql) := by
  have hkeep : ∀ st c st', TypedStorage st → (c.Ok ∧ TypedCall st c) → c.step st = some st' →
      TypedStorage st' := fun st c st' h hcond hstep => h.step hcond.1 hcond.2 hstep
  have hinv := Runs.invariant hkeep (typedStorage_start hempty) hmeets hrun
  obtain ⟨paths, schemas, hview, -⟩ :=
    openTable_view hplain.1 (hinv.sound.coherent table hplain)
  rw [hview] at hopen
  obtain ⟨schema', hschema, heq⟩ := Option.map_eq_some_iff.mp hopen
  obtain ⟨rfl, rfl⟩ := Prod.mk.inj heq
  obtain ⟨rows, hrows, hall⟩ := hinv.typed table hplain schema' hschema
  have hload : loadTableRows ((st.content table).getD []) schema'.length = some rows := by
    rw [hrows]
    exact loadTableRows_flatMap (tableSchema_ne_nil hschema) fun row hrow => (hall row hrow).1
  refine ⟨rows, hload, fun row hrow => (hall row hrow).2, fun hthere sql hwhere => ?_⟩
  obtain ⟨file, hfile⟩ := Option.ne_none_iff_exists'.mp hthere
  change st.content table = some file at hfile
  rw [hfile, Option.getD_some] at hload
  exact noRowFails hinv.sound hplain hschema hfile hload (fun row hrow => (hall row hrow).2) hwhere

/-! ## Two runs -/

/-- A table `t (id INT, n INT)` without rows. -/
def intTable : Path → Option CStr := fun path =>
  if path = schemaPath .nested "t".toList then some "id,INT\nn,INT\n".toList else none

def intSchema : List ColDef := [⟨"id".toList, .int⟩, ⟨"n".toList, .int⟩]

/-- `n = 1`. -/
def whereN : ParsedSQL :=
  { parsedNew with table := "t".toList, conds := [⟨"n".toList, ['='], ['1'], []⟩] }

/-- An INSERT, an UPDATE that sets `n` to `-5` where `n = 1`, and a DELETE of no row. -/
def typedCalls : List Call :=
  [.insert "t".toList ["id".toList, "n".toList] [['7'], ['1']],
    .update "t".toList { whereN with sets := [⟨"n".toList, "-5".toList⟩] },
    .delete "t".toList whereN]

omit [CDouble] in
theorem intTable_empty (place : Place) (table : CStr) :
    (intTable (tablePath place table)).getD [] = [] := by
  rw [intTable, if_neg (schemaPath_ne_tablePath _ _ _ _).symm]
  rfl

omit [CDouble] in
theorem typed_three_calls : ∃ st rows,
    Runs.run (@Call.step .whole) (.start intTable) typedCalls = some st ∧
      loadTableRows ((st.files (tablePath .nested "t".toList)).getD []) 2 = some rows ∧
        (∀ row ∈ rows, @TypedRow .whole intSchema row) ∧
          (st.files (tablePath .nested "t".toList) ≠ none → ∀ sql, @SoundWhere .whole intSchema sql →
            @NoRowFails .whole st "t".toList (tablePath .nested "t".toList) intSchema sql) := by
  have hopened : (Runs.run (@Call.step .whole) (.start intTable) typedCalls).bind
      (fun st => (openTable st "t".toList).1) = some (tablePath .nested "t".toList, intSchema) := by
    decide +kernel
  obtain ⟨st, hrun, hopen⟩ := Option.bind_eq_some_iff.mp hopened
  obtain ⟨rows, hrows⟩ := @typed_of_run .whole intTable typedCalls st intTable_empty
    (by decide +kernel) hrun "t".toList (by decide) _ _ hopen
  exact ⟨st, rows, hrun, hrows⟩

omit [CDouble] in
/-- An INSERT takes a text for an INT column, and from then on `n = 1` fails. -/
theorem insert_breaks_types : ∃ st,
    Runs.run (@Call.step .whole) (.start intTable) [.insert "t".toList [] [['1'], "abc".toList]] =
        some st ∧
      loadTableRows ((st.files (tablePath .nested "t".toList)).getD []) 2 =
        some [[['1'], "abc".toList]] ∧
      ¬ @TypedRow .whole intSchema [['1'], "abc".toList] ∧ @SoundWhere .whole intSchema whereN ∧
        (@storageSelectResult .whole st "t".toList { whereN with type := .select }).1 = none := by
  have hrun : (Runs.run (@Call.step .whole) (.start intTable)
      [.insert "t".toList [] [['1'], "abc".toList]]).map (fun st =>
        (loadTableRows ((st.files (tablePath .nested "t".toList)).getD []) 2,
          (@storageSelectResult .whole st "t".toList { whereN with type := .select }).1)) =
            some (some [[['1'], "abc".toList]], none) := by
    decide +kernel
  obtain ⟨st, hrun, hst⟩ := Option.map_eq_some_iff.mp hrun
  obtain ⟨hrows, hselect⟩ := Prod.mk.inj hst
  refine ⟨st, hrun, hrows, fun htyped => ?_, ⟨?_, by decide⟩, hselect⟩
  · exact absurd (htyped 1 ⟨"n".toList, .int⟩ "abc".toList rfl rfl) (by decide)
  · intro clause hclause
    obtain rfl := List.mem_singleton.mp hclause
    exact ⟨1, ⟨"n".toList, .int⟩, by decide, rfl, by decide, by decide, by decide⟩

end MiniSql

import MiniSql.Storage.Index

/-!
# Selecting rows

`storage_select_result` reads all rows of a table and keeps those that match;
`storage_select_result_by_row_index` and `storage_select_result_by_row_indices` fetch rows by
their numbers and do not look at the conditions. All three sort the rows and build the result
in the same way.

## Main definitions

* `sortSelection` — `ORDER BY`.
* `buildRowset` — projection, aggregates and `LIMIT`.
* `storageSelectResult`, `storageSelectResultByRowIndex`, `storageSelectResultByRowIndices`.
-/

namespace MiniSql
open CText

variable [CDouble]

/-! ## Sorting -/

/-- `compare_cells_by_type`. -/
def compareCellsByType (type : ColumnType) (left right : CStr) : Option ℤ :=
  let lhs := stripOptionalQuotes left 256
  let rhs := stripOptionalQuotes right 256
  match type with
  | .int =>
    match parseLongValue lhs, parseLongValue rhs with
    | some l, some r => some (sign3 (fun a b : ℤ => a < b) l r)
    | _, _ => none
  | .float =>
    match parseDoubleValue lhs, parseDoubleValue rhs with
    | some l, some r => some (sign3 CDouble.lt l r)
    | _, _ => none
  | .boolean =>
    match parseBooleanValue lhs, parseBooleanValue rhs with
    | some l, some r => some (sign3 (fun a b : ℤ => a < b) l r)
    | _, _ => none
  | .date | .varchar | .datetime => some (strcmp lhs rhs)

/-- `compare_rows_for_order`. -/
def compareRowsForOrder (type : ColumnType) (column : ℕ) (left right : Row) : ℤ :=
  let l := left[column]?.getD []
  let r := right[column]?.getD []
  (compareCellsByType type l r).getD (strcmp l r)

omit [CDouble] in
/-- The inner loop of `sort_selection`: the row of the outer loop, exchanged with every row
behind it that belongs before it. -/
def exchangePass (after : Row → Row → Bool) : Row → List Row → Row × List Row
  | row, [] => (row, [])
  | row, next :: rows =>
    if after row next then
      ((exchangePass after next rows).1, row :: (exchangePass after next rows).2)
    else ((exchangePass after row rows).1, next :: (exchangePass after row rows).2)

/-- The outer loop, with the number of rows as fuel. -/
def exchangeSort (after : Row → Row → Bool) : ℕ → List Row → List Row
  | n + 1, row :: rows =>
    (exchangePass after row rows).1 :: exchangeSort after n (exchangePass after row rows).2
  | _, rows => rows

/-- `sort_selection`. -/
def sortSelection (sql : ParsedSQL) (schema : List ColDef) (selection : List Row) :
    Option (List Row) :=
  match sql.orderBy with
  | none => some selection
  | some order =>
    if order.column = [] then some selection
    else match findSchemaIndex schema order.column with
      | none => none
      | some i =>
        let type := ((schema[i]?).map (·.type)).getD .varchar
        let after : Row → Row → Bool := fun left right =>
          if order.asc then 0 < compareRowsForOrder type i left right
          else compareRowsForOrder type i left right < 0
        some (exchangeSort after selection.length selection)

/-! ## Aggregates -/

/-- The name of a function: the first 15 characters that are no blanks, in upper case. -/
def aggregateName (text : CStr) : CStr :=
  ((text.filter fun c => !isSpace c).take 15).map Char.toUpper

/-- `parse_aggregate_call`: the function and its argument. -/
def parseAggregateCall (column : CStr) : Option (CStr × CStr) :=
  match column.findIdx? (· == '('), column.reverse.findIdx? (· == ')') with
  | some opening, some behind =>
    let closing := column.length - 1 - behind
    if closing < opening then none
    else
      let fn := aggregateName (column.take opening)
      let arg := (((column.take closing).drop (opening + 1)).filter fun c => !isSpace c).take 63
      if fn ∈ ["COUNT".toList, "SUM".toList, "AVG".toList, "MIN".toList, "MAX".toList] ∧ arg ≠ []
      then some (fn, arg) else none
  | _, _ => none

/-- The best cell of a column, for `MIN` and `MAX`. -/
def bestCell (type : ColumnType) (wantMax : Bool) : CStr → List CStr → CStr
  | best, [] => best
  | best, cell :: cells =>
    let cmp := (compareCellsByType type cell best).getD (strcmp cell best)
    bestCell type wantMax (if wantMax ∧ 0 < cmp ∨ ¬ wantMax ∧ cmp < 0 then cell else best) cells

/-- `evaluate_aggregate` into a `char [256]`; no column stands for the argument `*`. -/
def evaluateAggregate (fn : CStr) (column : Option (ℕ × ColumnType)) (selection : List Row) :
    Option CStr :=
  if fn = "COUNT".toList then some (intText selection.length)
  else match column with
    | none => none
    | some (i, type) =>
      let cells := selection.map fun row => row[i]?.getD []
      if fn = "MIN".toList ∨ fn = "MAX".toList then
        match cells with
        | [] => some []
        | cell :: cells => some ((bestCell type (fn = "MAX".toList) cell cells).take 255)
      else match type with
        | .int =>
          if cells = [] then some ['0']
          else
            (cells.mapM parseLongValue).map fun vs =>
              let sum := toInt64 vs.sum
              if fn = "SUM".toList then intText sum
              else CDouble.fixed2 (CDouble.div (CDouble.ofLong sum) (CDouble.ofLong cells.length))
        | .float =>
          if cells = [] then some ['0']
          else
            (cells.mapM parseDoubleValue).map fun vs =>
              let sum := vs.foldl CDouble.add CDouble.zero
              CDouble.fixed2 <|
                if fn = "SUM".toList then sum else CDouble.div sum (CDouble.ofLong cells.length)
        | _ => none

/-- `build_rowset_for_aggregate`. -/
def buildRowsetForAggregate (column fn arg : CStr) (schema : List ColDef)
    (selection : List Row) : Option RowSet :=
  let target : Option (Option (ℕ × ColumnType)) :=
    if arg = ['*'] then some none
    else match findSchemaIndex schema arg with
      | none => none
      | some i => some (some (i, ((schema[i]?).map (·.type)).getD .varchar))
  match target with
  | none => none
  | some target => (evaluateAggregate fn target selection).map fun value => ⟨[column], [[value]]⟩

/-! ## The result -/

omit [CDouble] in
/-- `resolve_selected_columns`. -/
def resolveSelectedColumns (columns : List CStr) (schema : List ColDef) : Option (List ℕ) :=
  if columns = [] ∨ columns = [['*']] then some (List.range schema.length)
  else columns.mapM (findSchemaIndex schema)

/-- `build_rowset_from_selection`. -/
def buildRowsetFromSelection (sql : ParsedSQL) (schema : List ColDef) (selection : List Row) :
    Option RowSet :=
  (resolveSelectedColumns sql.columns schema).map fun indices =>
    let rows := if sql.limit < 0 then selection else selection.take sql.limit.toNat
    ⟨indices.map fun i => ((schema[i]?).map (·.name)).getD [],
      rows.map fun row => indices.map fun i => row[i]?.getD []⟩

/-- The end of all three functions: sort the rows and build the result. -/
def buildRowset (sql : ParsedSQL) (schema : List ColDef) (selection : List Row) : Option RowSet :=
  match sortSelection sql schema selection with
  | none => none
  | some selection =>
    match sql.columns with
    | [column] =>
      match parseAggregateCall column with
      | some (fn, arg) => buildRowsetForAggregate column fn arg schema selection
      | none => buildRowsetFromSelection sql schema selection
    | _ => buildRowsetFromSelection sql schema selection

/-! ## Finding the rows -/

/-- `collect_matching_rows`. -/
def collectMatchingRows (sql : ParsedSQL) (schema : List ColDef) : List Row → Option (List Row)
  | [] => some []
  | row :: rows =>
    match rowMatchesDelete schema row sql with
    | none => none
    | some m => (collectMatchingRows sql schema rows).map fun rest => if m then row :: rest else rest

omit [CDouble] in
/-- The loop of `load_row_at_index` over the records, with the number of rows to skip. -/
def loadRowLoop (width : ℕ) (clean : Bool) : List CStr → ℕ → Option (List Row)
  | [], _ => if clean then some [] else none
  | record :: records, n =>
    match parseRow width record with
    | none => none
    | some row => match n with
      | 0 => some [row]
      | n + 1 => loadRowLoop width clean records n

/-- `load_row_at_index`. -/
def loadRowAtIndex (st : Storage) (path : Path) (width : ℕ) (rowIndex : ℤ) : Option (List Row) :=
  if rowIndex < 0 then some []
  else match st.files path with
    | none => none
    | some file => loadRowLoop width (csvRecords file).2 (csvRecords file).1 rowIndex.toNat

/-- `decode_binary_row`. -/
def decodeBinaryRow : List ColDef → CStr → Row
  | [], _ => []
  | col :: schema, buf =>
    let size := binColumnSize col.type
    (match col.type with
      | .int => intText (binInt buf 0)
      | .float => CDouble.general (buf.take 8)
      | .boolean => if buf.head?.getD '\x00' = '\x00' then ['0'] else ['1']
      | .varchar | .date | .datetime => cstr (buf.take size)) :: decodeBinaryRow schema (buf.drop size)

/-- `load_binary_rows_by_indices`. -/
def loadBinaryRowsByIndices (schema : List ColDef) (file : CStr) : List ℤ → List Row
  | [] => []
  | i :: indices =>
    if i < 0 then loadBinaryRowsByIndices schema file indices
    else
      let size := binRowSize schema
      let buf := (file.drop (i.toNat * size)).take size
      if buf.length < size then []
      else decodeBinaryRow schema buf :: loadBinaryRowsByIndices schema file indices

/-- The rows with the given numbers, as far as there are such rows. -/
def pickRows (rows : List Row) (indices : List ℤ) : List Row :=
  indices.filterMap fun i => if i < 0 then none else rows[i.toNat]?

/-! ## The three functions -/

/-- The path of the table and its schema, read from the file. -/
def openSelect (st : Storage) (table : CStr) : Option (Path × List ColDef) × Storage :=
  if table = [] then (none, st)
  else match buildSchemaPath st table with
    | (none, st) => (none, st)
    | (some schemaPath, st) =>
      match buildTablePath st table with
      | (none, st) => (none, st)
      | (some path, st) => ((loadSchema st schemaPath).map fun schema => (path, schema), st)

/-- The rows that `storage_select_result` selects. -/
def scanRows (st : Storage) (path : Path) (schema : List ColDef) (sql : ParsedSQL) :
    Option (List Row) :=
  match (st.files path).bind (loadTableRows · schema.length) with
  | none => none
  | some rows =>
    if sql.conds.all fun c => (findSchemaIndex schema c.column).isSome then
      collectMatchingRows sql schema rows
    else none

/-- The rows that `storage_select_result_by_row_indices` fetches. -/
def fetchRows (st : Storage) (table : CStr) (path : Path) (schema : List ColDef)
    (indices : List ℤ) : Option (List Row) :=
  match if fitsPath (binPath table) then st.files (binPath table) else none with
  | some bin => some (loadBinaryRowsByIndices schema bin indices)
  | none =>
    ((st.files path).bind (loadTableRows · schema.length)).map fun rows => pickRows rows indices

/-- A `SELECT` whose rows are found by `find`. -/
def selectBy (find : Storage → Path → List ColDef → Option (List Row)) (st : Storage)
    (table : CStr) (sql : ParsedSQL) : Option RowSet × Storage :=
  match openSelect st table with
  | (none, st) => (none, st)
  | (some (path, schema), st) => ((find st path schema).bind (buildRowset sql schema), st)

/-- `storage_select_result`. -/
def storageSelectResult (st : Storage) (table : CStr) (sql : ParsedSQL) :
    Option RowSet × Storage :=
  selectBy (fun st path schema => scanRows st path schema sql) st table sql

/-- `storage_select_result_by_row_index`. -/
def storageSelectResultByRowIndex (st : Storage) (table : CStr) (sql : ParsedSQL)
    (rowIndex : ℤ) : Option RowSet × Storage :=
  selectBy (fun st path schema => loadRowAtIndex st path schema.length rowIndex) st table sql

/-- `storage_select_result_by_row_indices`. -/
def storageSelectResultByRowIndices (st : Storage) (table : CStr) (sql : ParsedSQL)
    (indices : List ℤ) : Option RowSet × Storage :=
  selectBy (fun st path schema => fetchRows st table path schema indices) st table sql

/-! ## The rows of a SELECT -/

omit [CDouble] in
theorem openSelect_snd (st : Storage) (table : CStr) :
    ∃ paths, (openSelect st table).2 = { st with pathCache := paths } := by
  unfold openSelect buildSchemaPath buildTablePath
  split
  · exact ⟨_, rfl⟩
  obtain ⟨paths, hs⟩ := buildSchemaPathWith_snd st.pathExists st table
  rcases hres : buildSchemaPathWith st.pathExists st table with ⟨_ | sp, st₁⟩ <;>
    rw [hres] at hs <;> subst hs <;> dsimp only
  · exact ⟨_, rfl⟩
  obtain ⟨paths', ht⟩ := buildTablePathWith_snd
    ({ st with pathCache := paths } : Storage).pathExists { st with pathCache := paths } table
  rcases hres' : buildTablePathWith ({ st with pathCache := paths } : Storage).pathExists
    { st with pathCache := paths } table with ⟨_ | path, st₂⟩ <;>
    rw [hres'] at ht <;> subst ht <;> exact ⟨_, rfl⟩

/-- Where the conditions can be evaluated, the rows are filtered. -/
theorem collectMatchingRows_eq {sql : ParsedSQL} {schema : List ColDef} {rows : List Row}
    {matches' : Row → Bool}
    (h : ∀ row ∈ rows, rowMatchesDelete schema row sql = some (matches' row)) :
    collectMatchingRows sql schema rows = some (rows.filter matches') := by
  induction rows with
  | nil => rfl
  | cons row rows ih =>
    rw [collectMatchingRows, h row (by simp), ih fun row hrow => h row (by simp [hrow])]
    cases hrow : matches' row <;> simp [hrow]

/-- The rows of a SELECT of one column, without an order and a limit. -/
theorem buildRowset_call {sql : ParsedSQL} {schema : List ColDef} {selection sorted : List Row}
    {column fn arg : CStr} (hsort : sortSelection sql schema selection = some sorted)
    (hcolumns : sql.columns = [column]) (hcall : parseAggregateCall column = some (fn, arg)) :
    buildRowset sql schema selection = buildRowsetForAggregate column fn arg schema sorted := by
  rw [buildRowset, hsort]
  dsimp only
  rw [hcolumns]
  dsimp only
  rw [hcall]

theorem buildRowset_plain {sql : ParsedSQL} {schema : List ColDef} {selection sorted : List Row}
    {column : CStr} (hsort : sortSelection sql schema selection = some sorted)
    (hcolumns : sql.columns = [column]) (hcall : parseAggregateCall column = none) :
    buildRowset sql schema selection = buildRowsetFromSelection sql schema sorted := by
  rw [buildRowset, hsort]
  dsimp only
  rw [hcolumns]
  dsimp only
  rw [hcall]

theorem buildRowset_column {sql : ParsedSQL} {column : CStr} (hcolumns : sql.columns = [column])
    (hstar : column ≠ ['*']) (hcall : parseAggregateCall column = none) (hlimit : sql.limit < 0)
    (horder : sql.orderBy = none) (schema : List ColDef) (rows : List Row) :
    buildRowset sql schema rows = (findSchemaIndex schema column).map fun j =>
      ⟨[((schema[j]?).map (·.name)).getD []], rows.map fun row => [row[j]?.getD []]⟩ := by
  have hresolve : resolveSelectedColumns [column] schema =
      (findSchemaIndex schema column).map fun j => [j] := by
    unfold resolveSelectedColumns
    rw [if_neg (by simp [hstar]), List.mapM_cons]
    cases findSchemaIndex schema column <;> rfl
  have hsort : sortSelection sql schema rows = some rows := by
    rw [sortSelection, horder]
  rw [buildRowset_plain hsort hcolumns hcall, buildRowsetFromSelection, hcolumns, hresolve, Option.map_map, if_pos hlimit]
  rfl

end MiniSql

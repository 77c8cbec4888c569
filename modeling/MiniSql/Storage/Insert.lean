import MiniSql.Storage.Index

/-!
# Inserting a row

`storage_insert`. The values are put in schema order, the row is appended to the file, and
only then is the id of the row read and registered. The function is told the number of values
but not the number of columns, so a statement with fewer columns than values makes it read
past the column array.

## Main definitions

* `buildRowInSchemaOrder` — the row a statement describes.
* `nextAutoId` — the id given to a row without one.
* `storageInsert`.
-/

namespace MiniSql
open CText

/-- `user_has_id`: whether one of the first `count` columns is `id`. -/
def userHasId : ℕ → List CStr → Except Fault Bool
  | 0, _ => .ok false
  | _ + 1, [] => .error .overread
  | n + 1, c :: columns =>
    if equalsIgnoreCase c "id".toList then .ok true else userHasId n columns

/-- The loop of `build_row_in_schema_order` over the values, with the cells filled so far. -/
def fillRow (schema : List ColDef) :
    List CStr → List CStr → List (Option CStr) → Except Fault (List (Option CStr))
  | [], _, row => .ok row
  | _ :: _, [], _ => .error .overread
  | v :: values, c :: columns, row =>
    if c = [] then .error .failed
    else match findSchemaIndex schema c with
      | none => .error .failed
      | some i =>
        if row[i]? = some none then fillRow schema values columns (row.set i (some v))
        else .error .failed

/-- `build_row_in_schema_order`; no columns stand for the NULL pointer. -/
def buildRowInSchemaOrder (schema : List ColDef) (columns values : List CStr) :
    Except Fault Row :=
  if values.length ≠ schema.length then .error .failed
  else if columns = [] then .ok values
  else
    match fillRow schema values columns (List.replicate schema.length none) with
    | .error e => .error e
    | .ok row => if none ∈ row then .error .failed else .ok (row.map (·.getD []))

/-- The `stat` of `storage_insert`: with no handle open, an entry that counts rows of a file
that is gone or empty starts over. -/
def refreshMeta (st : Storage) (table : CStr) (path : Path) : Storage :=
  match st.metaCache.find table with
  | some m =>
    if 0 < m.nextRowIdx ∧ appendFpIsOpen st path = false ∧ (st.files path).getD [] = [] then
      { st with metaCache := st.metaCache.modify table fun _ => ⟨1, 0⟩ }
    else st
  | none => st

/-- The id of a row that comes without one: the counter of the entry, or of a new entry. -/
def nextAutoId (st : Storage) (table : CStr) (path : Path) (idCol : ℕ) : Option ℤ × Storage :=
  let st := refreshMeta st table path
  match st.metaCache.find table with
  | some m => (some m.nextId, st)
  | none =>
    if st.metaCache.length < metaCacheMax then
      (some (scannedMeta idCol (st.records path)).nextId, ensureMeta st table path idCol)
    else (none, st)

/-- The id that `strtol` reads from a cell, if it reads one. -/
def explicitId (cell : CStr) : Option ℤ :=
  let r := strtol cell
  if r.erange ∨ r.rest = cell then none else some (toInt32 r.value)

/-- The end of `storage_insert`, with the row built: append it, then find its id (`auto` for
an automatic one), register the row and move the counters on. -/
def finishInsert (st : Storage) (table : CStr) (path : Path) (idCol : ℕ) (row : Row)
    (auto : Option ℤ) : Status × Storage :=
  let entry := st.metaCache.find table
  let rowIdx := match entry with
    | some m => m.nextRowIdx
    | none => countCsvRows st path
  let st := appendCsvRow st path row
  match auto.or (explicitId (row[idCol]?.getD [])) with
  | none => (.error .failed, st)
  | some id =>
    let st := match indexRegistryGetOrCreate st table with
      | (some tree, st) => setTree st table (bptreeInsert tree id rowIdx)
      | (none, st) => st
    let bump : Meta → Meta := fun m =>
      ⟨if auto.isSome then toInt32 (m.nextId + 1) else m.nextId, m.nextRowIdx + 1⟩
    (.ok (), { st with metaCache := st.metaCache.modify table bump })

/-- The paths and the schema of a table, as `storage_insert` finds them. -/
def openTable (st : Storage) (table : CStr) : Option (Path × List ColDef) × Storage :=
  match buildSchemaPath st table with
  | (none, st) => (none, st)
  | (some schemaPath, st) =>
    match buildTablePath st table with
    | (none, st) => (none, st)
    | (some path, st) =>
      match schemaCacheGet st schemaPath with
      | (none, st) => (none, st)
      | (some schema, st) => (some (path, schema), st)

/-- `storage_insert` on a table with an `id` column. -/
def insertWithId (st : Storage) (table : CStr) (path : Path) (schema : List ColDef) (idCol : ℕ)
    (columns values : List CStr) : Status × Storage :=
  let st := ensureMeta st table path idCol
  match if columns = [] then .ok true else userHasId values.length columns with
  | .error e => (.error e, st)
  | .ok true =>
    match buildRowInSchemaOrder schema columns values with
    | .error e => (.error e, st)
    | .ok row => finishInsert st table path idCol row none
  | .ok false =>
    match nextAutoId st table path idCol with
    | (none, st) => (.error .failed, st)
    | (some id, st) =>
      match buildRowInSchemaOrder schema ("id".toList :: columns) (intText id :: values) with
      | .error e => (.error e, st)
      | .ok row => finishInsert st table path idCol row (some id)

/-- `storage_insert`. -/
def storageInsert (st : Storage) (table : CStr) (columns values : List CStr) :
    Status × Storage :=
  if table = [] ∨ values = [] then (.error .failed, st)
  else match openTable st table with
    | (none, st) => (.error .failed, st)
    | (some (path, schema), st) =>
      match findSchemaIndex schema "id".toList with
      | some idCol => insertWithId st table path schema idCol columns values
      | none =>
        match buildRowInSchemaOrder schema columns values with
        | .error e => (.error e, st)
        | .ok row => (.ok (), appendCsvRow st path row)

end MiniSql

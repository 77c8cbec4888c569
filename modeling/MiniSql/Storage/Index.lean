import MiniSql.Storage.State

/-!
# The index of a table

`storage_ensure_index` and `rebuild_index` fill the B+ tree of a table from its file,
`scan_csv_meta` finds the counters. Where a `.bin` file lies beside the table,
`storage_ensure_index` reads the ids from it.

## Main definitions

* `scanCsvMeta`, `countCsvRows` — the counters of a file.
* `indexLoop` — the loop that registers every row under its id.
* `ensureIndex`, `rebuildIndexWith`, `invalidateMetaCache`.
-/

namespace MiniSql
open CText

/-! ## Scanning the file -/

/-- The id of a record: `atoi` of its cell in the `id` column. -/
def idOfRecord (idCol : ℕ) (record : CStr) : Option ℤ :=
  ((parseCsvRecord record).bind (·[idCol]?)).map atoi

/-- The largest id, and `0` when none is positive. -/
def maxId (idCol : ℕ) (records : List CStr) : ℤ :=
  records.foldl (fun m r => match idOfRecord idCol r with
    | some id => if m < id then id else m
    | none => m) 0

/-- The records `read_csv_record` returns before the end of the file or an error. -/
def Storage.records (st : Storage) (path : Path) : List CStr :=
  match st.files path with
  | some file => (csvRecords file).1
  | none => []

/-- `scan_csv_meta`: the largest id and the number of rows. -/
def scanCsvMeta (st : Storage) (path : Path) (idCol : ℕ) : ℤ × ℕ :=
  (maxId idCol (st.records path), (st.records path).length)

/-- `count_csv_rows`. -/
def countCsvRows (st : Storage) (path : Path) : ℕ := (st.records path).length

/-- The entry a scan gives. -/
def scannedMeta (idCol : ℕ) (records : List CStr) : Meta :=
  ⟨toInt32 (maxId idCol records + 1), records.length⟩

/-- Insert every record with a positive id under its number, from number `row` on. -/
def indexLoop (idCol : ℕ) : List CStr → ℕ → BPTree → BPTree
  | [], _, tree => tree
  | record :: records, row, tree =>
    indexLoop idCol records (row + 1) <|
      match idOfRecord idCol record with
      | some id => if 0 < id then bptreeInsert tree id row else tree
      | none => tree

/-! ## The binary file -/

/-- `bin_column_size`. -/
def binColumnSize : ColumnType → ℕ
  | .int => 4
  | .float => 8
  | .boolean => 1
  | .varchar => 32
  | .date => 16
  | .datetime => 24

/-- `bin_row_size`. -/
def binRowSize (schema : List ColDef) : ℕ := (schema.map fun d => binColumnSize d.type).sum

/-- The complete rows of a binary file, with the fuel of its length. -/
def binRowsLoop (rowSize : ℕ) : ℕ → CStr → List CStr
  | 0, _ => []
  | n + 1, file =>
    if file.length < rowSize then []
    else file.take rowSize :: binRowsLoop rowSize n (file.drop rowSize)

def binRows (rowSize : ℕ) (file : CStr) : List CStr := binRowsLoop rowSize file.length file

/-- The `int32_t` in the four bytes at an offset. -/
def binInt (row : CStr) (offset : ℕ) : ℤ :=
  let byte := fun i => (((row[offset + i]?).map Char.toNat).getD 0 : ℤ)
  toInt32 (byte 0 + 2 ^ 8 * byte 1 + 2 ^ 16 * byte 2 + 2 ^ 24 * byte 3)

/-- The binary counterpart of `indexLoop`. -/
def binIndexLoop (offset : ℕ) : List CStr → ℕ → BPTree → BPTree
  | [], _, tree => tree
  | r :: rows, row, tree =>
    binIndexLoop offset rows (row + 1) <|
      if 0 < binInt r offset then bptreeInsert tree (binInt r offset) row else tree

/-! ## The meta cache -/

/-- Set both counters of a table, in its entry or in a new one. -/
def putMeta (st : Storage) (table : CStr) (m : Meta) : Storage :=
  match st.metaCache.find table with
  | some _ => { st with metaCache := st.metaCache.modify table fun _ => m }
  | none => { st with metaCache := st.metaCache.add metaCacheMax (table.take nameMax) m }

/-- `invalidate_meta_cache`. -/
def invalidateMetaCache (st : Storage) (table : CStr) : Storage :=
  { st with metaCache := st.metaCache.modify table fun _ => ⟨0, 0⟩ }

/-- The entry that `storage_insert` makes for a table with an `id` column. -/
def ensureMeta (st : Storage) (table : CStr) (path : Path) (idCol : ℕ) : Storage :=
  match st.metaCache.find table with
  | some _ => st
  | none =>
    let m := scannedMeta idCol (st.records path)
    { st with metaCache := st.metaCache.add metaCacheMax (table.take nameMax) m }

/-! ## Building the tree -/

/-- Record in `s_index_rebuilt` that the table has been indexed. -/
def markRebuilt (st : Storage) (table : CStr) : Storage :=
  if st.indexRebuilt.length < metaCacheMax then
    { st with indexRebuilt := st.indexRebuilt ++ [table.take nameMax] }
  else st

/-- The part of `storage_ensure_index` behind `index_registry_get_or_create`. -/
def fillIndex (st : Storage) (table : CStr) (path : Path) (schema : List ColDef) (idCol : ℕ)
    (tree : BPTree) : Storage :=
  let bin := if fitsPath (binPath table) then st.files (binPath table) else none
  match bin with
  | some bin =>
    let rows := binRows (binRowSize schema) bin
    let offset := binRowSize (schema.take idCol)
    let maxSeen := rows.foldl (fun m r => max m (binInt r offset)) 0
    markRebuilt (putMeta (setTree st table (binIndexLoop offset rows 0 tree)) table
      ⟨toInt32 (maxSeen + 1), rows.length⟩) table
  | none =>
    match st.files path with
    | none => markRebuilt st table
    | some _ =>
      let records := st.records path
      markRebuilt (putMeta (setTree st table (indexLoop idCol records 0 tree)) table
        (scannedMeta idCol records)) table

/-- `storage_ensure_index`. -/
def ensureIndex (st : Storage) (table : CStr) : Storage :=
  if table = [] ∨ table ∈ st.indexRebuilt then st
  else match buildSchemaPath st table with
    | (none, st) => st
    | (some schemaPath, st) =>
      match buildTablePath st table with
      | (none, st) => st
      | (some path, st) =>
        match schemaCacheGet st schemaPath with
        | (none, st) => st
        | (some schema, st) =>
          match findSchemaIndex schema "id".toList with
          | none => markRebuilt st table
          | some idCol =>
            match indexRegistryGetOrCreate st table with
            | (none, st) => st
            | (some tree, st) => fillIndex st table path schema idCol tree

/-- `rebuild_index`. The trees of all tables go, and this table's is made again, unless its
file cannot be opened. -/
def rebuildIndexWith (openFails : Bool) (st : Storage) (table : CStr) (path : Path)
    (idCol : Option ℕ) : Storage :=
  match idCol with
  | none => st
  | some idCol =>
    match indexRegistryGetOrCreate (indexRegistryDestroyAll st) table with
    | (none, st) => st
    | (some tree, st) =>
      match if openFails then none else st.files path with
      | none => st
      | some _ => setTree st table (indexLoop idCol (st.records path) 0 tree)

end MiniSql

import MiniSql.BPTree
import MiniSql.Csv
import MiniSql.Lib.Slots
import MiniSql.Where

/-!
# The state of the storage

The files and the static caches of `storage.c` and `index_registry.c`. The caches are arrays
of at most 16 slots (64 in the index registry), searched by name; a name that is longer than
the array it is copied into is cut there.

`fflush` follows every write to a cached append handle, so a file always holds what was
written to it: an entry of the handle cache only says that the file is open. A path is a
name for a file: two paths that differ as strings are different files.

## Main definitions

* `Fault`, `Status` — what a storage operation returns.
* `Storage` — files and caches.
* `buildSchemaPath`, `buildTablePath`, `buildTempPath` — where the files of a table are.
* `schemaCacheGet`, `appendFpGet` — the schema and the append handle behind their caches.
-/

namespace MiniSql
open CText

/-- Why a storage operation does not return `0`: it returns `-1`, or it reads past the end of
an array and means nothing. -/
inductive Fault
  | failed | overread
  deriving DecidableEq, Repr

/-- The result of a storage operation: `.ok ()` for `0`, `.error .failed` for `-1`. -/
abbrev Status := Except Fault Unit

/-- An entry of `s_meta`: the next automatic id and the number of the next row. -/
structure Meta where
  nextId : ℤ
  nextRowIdx : ℕ
  deriving DecidableEq, Repr

/-- The directories a table can live in: `data/schema` and `data/tables`, or `data` itself. -/
inductive Place
  | nested | legacy
  deriving DecidableEq, Repr

def schemaPath : Place → CStr → Path
  | .nested, table => "data/schema/".toList ++ table ++ ".schema".toList
  | .legacy, table => "data/".toList ++ table ++ ".schema".toList

def tablePath : Place → CStr → Path
  | .nested, table => "data/tables/".toList ++ table ++ ".csv".toList
  | .legacy, table => "data/".toList ++ table ++ ".csv".toList

def tempPath : Place → CStr → Path
  | .nested, table => "data/tables/".toList ++ table ++ ".csv.tmp".toList
  | .legacy, table => "data/".toList ++ table ++ ".csv.tmp".toList

def binPath (table : CStr) : Path := "data/tables/".toList ++ table ++ ".bin".toList

/-- An entry of `s_path_cache`: for each of the two paths that is known, the directory and
the table it was made for. -/
structure TablePaths where
  schema : Option (Place × CStr)
  table : Option (Place × CStr)
  deriving DecidableEq, Repr

/-- `STORAGE_META_CACHE_MAX`, the capacity of every cache of `storage.c`. -/
def metaCacheMax : ℕ := 16

/-- `INDEX_REGISTRY_MAX_TABLES`. -/
def registryMax : ℕ := 64

/-- The length of a name that fits the `char [64]` of a cache entry. -/
def nameMax : ℕ := 63

/-- The files and the static data. -/
structure Storage where
  files : Path → Option CStr
  metaCache : Slots CStr Meta
  appendFp : List Path
  schemaCache : Slots Path (List ColDef)
  pathCache : Slots CStr TablePaths
  indexRebuilt : List CStr
  registry : Slots CStr BPTree

/-- A process that has just started on the given files. -/
def Storage.start (files : Path → Option CStr) : Storage := ⟨files, [], [], [], [], [], []⟩

/-- `path_exists`. -/
def Storage.pathExists (st : Storage) (path : Path) : Bool := (st.files path).isSome

def Storage.setFile (st : Storage) (path : Path) (content : Option CStr) : Storage :=
  { st with files := Function.update st.files path content }

@[simp] theorem Storage.setFile_files (st : Storage) (path : Path) (content : Option CStr) :
    (st.setFile path content).files = Function.update st.files path content := rfl

section SetFile

variable (st : Storage) (path : Path) (content : Option CStr)

@[simp] theorem Storage.setFile_metaCache : (st.setFile path content).metaCache = st.metaCache := rfl

@[simp] theorem Storage.setFile_appendFp : (st.setFile path content).appendFp = st.appendFp := rfl

@[simp] theorem Storage.setFile_schemaCache :
    (st.setFile path content).schemaCache = st.schemaCache := rfl

@[simp] theorem Storage.setFile_pathCache : (st.setFile path content).pathCache = st.pathCache := rfl

@[simp] theorem Storage.setFile_registry : (st.setFile path content).registry = st.registry := rfl

@[simp] theorem Storage.setFile_indexRebuilt :
    (st.setFile path content).indexRebuilt = st.indexRebuilt := rfl

end SetFile

/-! ## Paths -/

/-- A path that fits a buffer of `STORAGE_PATH_MAX` bytes. -/
def fitsPath (path : Path) : Bool := path.length < storagePathMax

/-- `build_schema_path`, with `probe` for the answers of `path_exists`. -/
def buildSchemaPathWith (probe : Path → Bool) (st : Storage) (table : CStr) :
    Option Path × Storage :=
  let entry := st.pathCache.find table
  match entry.bind (·.schema) with
  | some (place, name) => (some (schemaPath place name), st)
  | none =>
    if !fitsPath (schemaPath .nested table) || !fitsPath (schemaPath .legacy table) then (none, st)
    else
      let place : Place :=
        if !probe (schemaPath .nested table) && probe (schemaPath .legacy table)
        then .legacy else .nested
      let cache := match entry with
        | none => st.pathCache.add metaCacheMax (table.take nameMax) ⟨some (place, table), none⟩
        | some _ => st.pathCache.modify table fun e => { e with schema := some (place, table) }
      (some (schemaPath place table), { st with pathCache := cache })

/-- `build_table_path`. -/
def buildTablePathWith (probe : Path → Bool) (st : Storage) (table : CStr) :
    Option Path × Storage :=
  let entry := st.pathCache.find table
  match entry.bind (·.table) with
  | some (place, name) => (some (tablePath place name), st)
  | none =>
    if !fitsPath (tablePath .nested table) || !fitsPath (tablePath .legacy table) ||
        !fitsPath (schemaPath .nested table) then (none, st)
    else
      let place : Place :=
        if !(probe (tablePath .nested table) || probe (schemaPath .nested table)) &&
          probe (tablePath .legacy table)
        then .legacy else .nested
      let cache := match entry with
        | none => st.pathCache.add metaCacheMax (table.take nameMax) ⟨none, some (place, table)⟩
        | some _ => st.pathCache.modify table fun e => { e with table := some (place, table) }
      (some (tablePath place table), { st with pathCache := cache })

/-- `build_temp_path`. -/
def buildTempPathWith (probe : Path → Bool) (table : CStr) : Option Path :=
  if !fitsPath (tempPath .nested table) || !fitsPath (tablePath .legacy table) ||
      !fitsPath (tablePath .nested table) || !fitsPath (schemaPath .nested table) then none
  else if !probe (tablePath .nested table) && !probe (schemaPath .nested table) &&
      probe (tablePath .legacy table) then
    if fitsPath (tempPath .legacy table) then some (tempPath .legacy table) else none
  else some (tempPath .nested table)

def buildSchemaPath (st : Storage) (table : CStr) : Option Path × Storage :=
  buildSchemaPathWith st.pathExists st table

def buildTablePath (st : Storage) (table : CStr) : Option Path × Storage :=
  buildTablePathWith st.pathExists st table

/-! ## Schemas and append handles -/

/-- `load_schema`. -/
def loadSchema (st : Storage) (path : Path) : Option (List ColDef) :=
  (st.files path).bind parseSchema

/-- `storage_schema_cache_get`. -/
def schemaCacheGet (st : Storage) (path : Path) : Option (List ColDef) × Storage :=
  match st.schemaCache.find path with
  | some schema => (some schema, st)
  | none =>
    match loadSchema st path with
    | none => (none, st)
    | some schema =>
      (some schema, { st with schemaCache := st.schemaCache.add metaCacheMax path schema })

/-- `storage_append_fp_is_open`. -/
def appendFpIsOpen (st : Storage) (path : Path) : Bool := path ∈ st.appendFp

/-- `storage_append_fp_get`: opening for append creates a file that is missing. A full cache
closes its oldest handle. -/
def appendFpGet (st : Storage) (path : Path) : Storage :=
  if appendFpIsOpen st path then st
  else
    let open' := if metaCacheMax ≤ st.appendFp.length then st.appendFp.tail else st.appendFp
    { st with
      appendFp := open' ++ [path],
      files := Function.update st.files path (some ((st.files path).getD [])) }

/-- `storage_append_fp_invalidate`. -/
def appendFpInvalidate (st : Storage) (path : Path) : Storage :=
  { st with appendFp := st.appendFp.erase path }

/-- `append_csv_row`. What goes to a handle whose file has been removed is lost. -/
def appendCsvRow (st : Storage) (path : Path) (row : Row) : Storage :=
  let st := appendFpGet st path
  match st.files path with
  | some content => st.setFile path (some (content ++ writeCsvRow row))
  | none => st

/-! ## The index registry -/

/-- `index_registry_get`. -/
def indexRegistryGet (st : Storage) (table : CStr) : Option BPTree := st.registry.find table

/-- The empty tree of order 128 that the storage asks for. -/
def emptyTree : BPTree := ⟨128, .leaf 0 [] none, 1⟩

/-- `index_registry_get_or_create(table, 128)`; a full registry or a long name gives NULL. -/
def indexRegistryGetOrCreate (st : Storage) (table : CStr) : Option BPTree × Storage :=
  match st.registry.find table with
  | some tree => (some tree, st)
  | none =>
    if registryMax ≤ st.registry.length ∨ 64 < table.length + 1 then (none, st)
    else (some emptyTree, { st with registry := st.registry.add registryMax table emptyTree })

/-- The tree behind the pointer `index_registry_get` returned, after an update. -/
def setTree (st : Storage) (table : CStr) (tree : BPTree) : Storage :=
  { st with registry := st.registry.modify table fun _ => tree }

/-- `index_registry_destroy_all`. -/
def indexRegistryDestroyAll (st : Storage) : Storage := { st with registry := [] }

/-! ## What the caches leave alone -/

/-- The last character of a path tells what kind of file it names. -/
theorem getLast?_affix {a name b : CStr} {c : Char} (hb : b.getLast? = some c) :
    (a ++ name ++ b).getLast? = some c := by
  simp only [List.getLast?_append, hb, Option.some_or]

theorem getLast?_tablePath (place : Place) (table : CStr) :
    (tablePath place table).getLast? = some 'v' := by
  cases place <;> exact getLast?_affix (by decide)

theorem tempPath_ne_tablePath (place place' : Place) (table name : CStr) :
    tempPath place table ≠ tablePath place' name := by
  intro h
  have htemp : (tempPath place table).getLast? = some 'p' := by
    cases place <;> exact getLast?_affix (by decide)
  rw [h, getLast?_tablePath] at htemp
  exact absurd htemp (by decide)

theorem schemaPath_ne_tablePath (place place' : Place) (table name : CStr) :
    schemaPath place table ≠ tablePath place' name := by
  intro h
  have hschema : (schemaPath place table).getLast? = some 'a' := by
    cases place <;> exact getLast?_affix (by decide)
  rw [h, getLast?_tablePath] at hschema
  exact absurd hschema (by decide)

theorem buildSchemaPathWith_snd (probe : Path → Bool) (st : Storage) (table : CStr) :
    ∃ cache, (buildSchemaPathWith probe st table).2 = { st with pathCache := cache } := by
  unfold buildSchemaPathWith
  dsimp only
  split
  · exact ⟨_, rfl⟩
  · split
    · exact ⟨_, rfl⟩
    · exact ⟨_, rfl⟩

theorem buildTablePathWith_snd (probe : Path → Bool) (st : Storage) (table : CStr) :
    ∃ cache, (buildTablePathWith probe st table).2 = { st with pathCache := cache } := by
  unfold buildTablePathWith
  dsimp only
  split
  · exact ⟨_, rfl⟩
  · split
    · exact ⟨_, rfl⟩
    · exact ⟨_, rfl⟩

theorem buildSchemaPathWith_fst {probe : Path → Bool} {st : Storage} {table : CStr} {path : Path}
    (h : (buildSchemaPathWith probe st table).1 = some path) :
    ∃ place name, path = schemaPath place name := by
  unfold buildSchemaPathWith at h
  dsimp only at h
  split at h
  · exact ⟨_, _, (Option.some.inj h).symm⟩
  · split at h
    · exact absurd h (by simp)
    · exact ⟨_, _, (Option.some.inj h).symm⟩

theorem buildTablePathWith_fst {probe : Path → Bool} {st : Storage} {table : CStr} {path : Path}
    (h : (buildTablePathWith probe st table).1 = some path) :
    ∃ place name, path = tablePath place name := by
  unfold buildTablePathWith at h
  dsimp only at h
  split at h
  · exact ⟨_, _, (Option.some.inj h).symm⟩
  · split at h
    · exact absurd h (by simp)
    · exact ⟨_, _, (Option.some.inj h).symm⟩

theorem schemaCacheGet_snd (st : Storage) (path : Path) :
    ∃ cache, (schemaCacheGet st path).2 = { st with schemaCache := cache } := by
  unfold schemaCacheGet
  split
  · exact ⟨_, rfl⟩
  · split
    · exact ⟨_, rfl⟩
    · exact ⟨_, rfl⟩

theorem indexRegistryGetOrCreate_snd (st : Storage) (table : CStr) :
    ∃ registry, (indexRegistryGetOrCreate st table).2 = { st with registry := registry } := by
  unfold indexRegistryGetOrCreate
  split
  · exact ⟨_, rfl⟩
  · split
    · exact ⟨_, rfl⟩
    · exact ⟨_, rfl⟩

/-- The handle is open on a file that has been removed. -/
def Storage.Lost (st : Storage) (path : Path) : Prop := path ∈ st.appendFp ∧ st.files path = none

instance (st : Storage) (path : Path) : Decidable (st.Lost path) :=
  inferInstanceAs (Decidable (_ ∧ _))

theorem appendCsvRow_files (st : Storage) (path : Path) (row : Row) :
    (appendCsvRow st path row).files =
      if st.Lost path then st.files
      else Function.update st.files path (some ((st.files path).getD [] ++ writeCsvRow row)) := by
  unfold appendCsvRow
  by_cases hopen : path ∈ st.appendFp
  · have hget : appendFpGet st path = st := by simp [appendFpGet, appendFpIsOpen, hopen]
    rw [hget]
    dsimp only
    split
    · rename_i content hfile
      simp [Storage.Lost, hfile, Storage.setFile]
    · rename_i hfile
      simp [Storage.Lost, hfile, hopen]
  · have hget : (appendFpGet st path).files path = some ((st.files path).getD []) := by
      simp [appendFpGet, appendFpIsOpen, hopen]
    dsimp only
    rw [hget]
    simp [Storage.Lost, hopen, Storage.setFile, appendFpGet, appendFpIsOpen]

theorem appendCsvRow_snd (st : Storage) (path : Path) (row : Row) :
    ∃ files fps, appendCsvRow st path row = { st with files := files, appendFp := fps } := by
  unfold appendCsvRow appendFpGet Storage.setFile
  dsimp only
  split
  · split <;> exact ⟨_, _, rfl⟩
  · split <;> exact ⟨_, _, rfl⟩

end MiniSql

import MiniSql.Storage.Statements

/-!
# Files that no statement writes

The storage writes schema files, the files of tables and their temporary files. Whatever lies at
another path is neither read nor changed by the functions that write: they commute with any
change there. The `.bin` files are such files.

## Main results

* `openTable_setFile`, `openSelect_setFile` — opening a table.
* `storageInsert_setFile`, `storageDelete_setFile`, `storageUpdate_setFile`,
  `storageCreate_setFile` — the functions that write.
-/

namespace MiniSql
open CText

/-- A path that names no file of any table. -/
def Foreign (b : Path) : Prop :=
  ∀ place name, b ≠ schemaPath place name ∧ b ≠ tablePath place name ∧ b ≠ tempPath place name

theorem foreign_binPath (table : CStr) : Foreign (binPath table) :=
  fun place name => ⟨fun h => binPath_not_own table name (h ▸ ownPath_schema place name),
    fun h => binPath_not_own table name (h ▸ ownPath_table place name),
    fun h => binPath_not_own table name (h ▸ ownPath_temp place name)⟩

/-- The file of a table that was opened is not foreign. -/
theorem openTable_foreign {b path : Path} (hb : Foreign b) {st : Storage} {table : CStr}
    {schema : List ColDef} (h : (openTable st table).1 = some (path, schema)) : b ≠ path := by
  unfold openTable at h
  rcases hs : buildSchemaPath st table with ⟨_ | sp, st₁⟩ <;> rw [hs] at h
  · exact absurd h (by simp)
  dsimp only at h
  rcases ht : buildTablePath st₁ table with ⟨_ | path', st₂⟩ <;> rw [ht] at h
  · exact absurd h (by simp)
  obtain ⟨place, name, rfl⟩ := buildTablePathWith_fst (congrArg Prod.fst ht)
  dsimp only at h
  rcases hc : schemaCacheGet st₂ sp with ⟨_ | schema', st₃⟩ <;> rw [hc] at h
  · exact absurd h (by simp)
  · rw [← (Prod.mk.inj (Option.some.inj h)).1]
    exact (hb place name).2.1

theorem openSelect_foreign {b path : Path} (hb : Foreign b) {st : Storage} {table : CStr}
    {schema : List ColDef} (h : (openSelect st table).1 = some (path, schema)) : b ≠ path := by
  unfold openSelect at h
  split at h
  · exact absurd h (by simp)
  rcases hs : buildSchemaPath st table with ⟨_ | sp, st₁⟩ <;> rw [hs] at h
  · exact absurd h (by simp)
  dsimp only at h
  rcases ht : buildTablePath st₁ table with ⟨_ | path', st₂⟩ <;> rw [ht] at h
  · exact absurd h (by simp)
  obtain ⟨place, name, rfl⟩ := buildTablePathWith_fst (congrArg Prod.fst ht)
  obtain ⟨schema', -, heq⟩ := Option.map_eq_some_iff.mp h
  rw [← (Prod.mk.inj heq).1]
  exact (hb place name).2.1

section

variable {b : Path} (hb : Foreign b) (x : Option CStr) (st : Storage) (table : CStr)

theorem setFile_files_of_ne {p : Path} (h : b ≠ p) : (st.setFile b x).files p = st.files p :=
  Function.update_of_ne h.symm _ _

theorem setFile_comm {p : Path} (h : b ≠ p) (y : Option CStr) :
    (st.setFile b x).setFile p y = (st.setFile p y).setFile b x := by
  unfold Storage.setFile
  rw [Function.update_comm h]

/-! ## Opening a table -/

theorem buildSchemaPathWith_setFile {probe probe' : Path → Bool}
    (hprobe : ∀ place name, probe' (schemaPath place name) = probe (schemaPath place name)) :
    buildSchemaPathWith probe' (st.setFile b x) table =
      ((buildSchemaPathWith probe st table).1, (buildSchemaPathWith probe st table).2.setFile b x) := by
  unfold buildSchemaPathWith
  simp only [hprobe, Storage.setFile_pathCache]
  cases (st.pathCache.find table).bind (·.schema) with
  | some p => rfl
  | none =>
    dsimp only
    split <;> rfl

theorem buildTablePathWith_setFile {probe probe' : Path → Bool}
    (hschema : ∀ place name, probe' (schemaPath place name) = probe (schemaPath place name))
    (htable : ∀ place name, probe' (tablePath place name) = probe (tablePath place name)) :
    buildTablePathWith probe' (st.setFile b x) table =
      ((buildTablePathWith probe st table).1, (buildTablePathWith probe st table).2.setFile b x) := by
  unfold buildTablePathWith
  simp only [hschema, htable, Storage.setFile_pathCache]
  cases (st.pathCache.find table).bind (·.table) with
  | some p => rfl
  | none =>
    dsimp only
    split <;> rfl

include hb

theorem pathExists_setFile (place : Place) (name : CStr) :
    (st.setFile b x).pathExists (schemaPath place name) = st.pathExists (schemaPath place name) ∧
      (st.setFile b x).pathExists (tablePath place name) = st.pathExists (tablePath place name) := by
  obtain ⟨hs, ht, -⟩ := hb place name
  simp only [Storage.pathExists, setFile_files_of_ne x st hs, setFile_files_of_ne x st ht, and_self]

theorem buildSchemaPath_setFile :
    buildSchemaPath (st.setFile b x) table =
      ((buildSchemaPath st table).1, (buildSchemaPath st table).2.setFile b x) :=
  buildSchemaPathWith_setFile x st table fun place name => (pathExists_setFile hb x st place name).1

theorem buildTablePath_setFile :
    buildTablePath (st.setFile b x) table =
      ((buildTablePath st table).1, (buildTablePath st table).2.setFile b x) :=
  buildTablePathWith_setFile x st table
    (fun place name => (pathExists_setFile hb x st place name).1)
    fun place name => (pathExists_setFile hb x st place name).2

theorem loadSchema_setFile (place : Place) (name : CStr) :
    loadSchema (st.setFile b x) (schemaPath place name) = loadSchema st (schemaPath place name) := by
  rw [loadSchema, setFile_files_of_ne x st (hb place name).1, loadSchema]

theorem schemaCacheGet_setFile (place : Place) (name : CStr) :
    schemaCacheGet (st.setFile b x) (schemaPath place name) =
      ((schemaCacheGet st (schemaPath place name)).1,
        (schemaCacheGet st (schemaPath place name)).2.setFile b x) := by
  unfold schemaCacheGet
  rw [loadSchema_setFile hb, Storage.setFile_schemaCache]
  cases st.schemaCache.find (schemaPath place name) with
  | some schema => rfl
  | none => dsimp only; split <;> rfl

theorem openTable_setFile :
    openTable (st.setFile b x) table =
      ((openTable st table).1, (openTable st table).2.setFile b x) := by
  unfold openTable
  rw [buildSchemaPath_setFile hb]
  rcases hs : buildSchemaPath st table with ⟨_ | sp, st₁⟩
  · rfl
  obtain ⟨place, name, rfl⟩ := buildSchemaPathWith_fst (congrArg Prod.fst hs)
  dsimp only
  rw [buildTablePath_setFile hb]
  rcases buildTablePath st₁ table with ⟨_ | path, st₂⟩
  · rfl
  dsimp only
  rw [schemaCacheGet_setFile hb]
  rcases schemaCacheGet st₂ (schemaPath place name) with ⟨_ | schema, st₃⟩ <;> rfl

theorem openSelect_setFile :
    openSelect (st.setFile b x) table =
      ((openSelect st table).1, (openSelect st table).2.setFile b x) := by
  unfold openSelect
  split
  · rfl
  rw [buildSchemaPath_setFile hb]
  rcases hs : buildSchemaPath st table with ⟨_ | sp, st₁⟩
  · rfl
  obtain ⟨place, name, rfl⟩ := buildSchemaPathWith_fst (congrArg Prod.fst hs)
  dsimp only
  rw [buildTablePath_setFile hb]
  rcases buildTablePath st₁ table with ⟨_ | path, st₂⟩
  · rfl
  dsimp only
  rw [loadSchema_setFile hb]

/-! ## Inserting -/

omit hb

theorem indexRegistryGetOrCreate_setFile :
    indexRegistryGetOrCreate (st.setFile b x) table =
      ((indexRegistryGetOrCreate st table).1,
        (indexRegistryGetOrCreate st table).2.setFile b x) := by
  unfold indexRegistryGetOrCreate
  rw [Storage.setFile_registry]
  cases st.registry.find table with
  | some tree => rfl
  | none =>
    dsimp only
    split <;> rfl

variable {path : Path} (hpath : b ≠ path)
include hpath

theorem records_setFile : (st.setFile b x).records path = st.records path := by
  rw [Storage.records, setFile_files_of_ne x st hpath, Storage.records]

theorem appendCsvRow_setFile (row : Row) :
    appendCsvRow (st.setFile b x) path row = (appendCsvRow st path row).setFile b x := by
  have hget : appendFpGet (st.setFile b x) path = (appendFpGet st path).setFile b x := by
    unfold appendFpGet appendFpIsOpen
    rw [setFile_files_of_ne x st hpath, Storage.setFile_appendFp]
    split
    · rfl
    · unfold Storage.setFile
      dsimp only
      rw [Function.update_comm hpath]
  unfold appendCsvRow
  rw [hget]
  dsimp only
  rw [setFile_files_of_ne x _ hpath]
  cases (appendFpGet st path).files path with
  | none => rfl
  | some content => exact setFile_comm x _ hpath _

theorem ensureMeta_setFile (idCol : ℕ) :
    ensureMeta (st.setFile b x) table path idCol = (ensureMeta st table path idCol).setFile b x := by
  unfold ensureMeta
  rw [records_setFile x st hpath, Storage.setFile_metaCache]
  cases st.metaCache.find table <;> rfl

theorem refreshMeta_setFile :
    refreshMeta (st.setFile b x) table path = (refreshMeta st table path).setFile b x := by
  unfold refreshMeta appendFpIsOpen
  rw [setFile_files_of_ne x st hpath, Storage.setFile_metaCache, Storage.setFile_appendFp]
  cases st.metaCache.find table with
  | none => rfl
  | some m =>
    dsimp only
    split <;> rfl

theorem nextAutoId_setFile (idCol : ℕ) :
    nextAutoId (st.setFile b x) table path idCol =
      ((nextAutoId st table path idCol).1, (nextAutoId st table path idCol).2.setFile b x) := by
  unfold nextAutoId
  rw [refreshMeta_setFile x st table hpath]
  dsimp only
  rw [records_setFile x _ hpath, ensureMeta_setFile x _ table hpath, Storage.setFile_metaCache]
  cases (refreshMeta st table path).metaCache.find table with
  | some m => rfl
  | none =>
    dsimp only
    split <;> rfl

theorem finishInsert_setFile (idCol : ℕ) (row : Row) (auto : Option ℤ) :
    finishInsert (st.setFile b x) table path idCol row auto =
      ((finishInsert st table path idCol row auto).1,
        (finishInsert st table path idCol row auto).2.setFile b x) := by
  have hcount : countCsvRows (st.setFile b x) path = countCsvRows st path := by
    rw [countCsvRows, records_setFile x st hpath, countCsvRows]
  unfold finishInsert
  rw [appendCsvRow_setFile x st hpath, hcount]
  cases auto.or (explicitId (row[idCol]?.getD [])) with
  | none => rfl
  | some id =>
    dsimp only
    rw [indexRegistryGetOrCreate_setFile x _ table]
    rcases indexRegistryGetOrCreate (appendCsvRow st path row) table with ⟨_ | tree, st₁⟩ <;> rfl

theorem insertWithId_setFile (schema : List ColDef) (idCol : ℕ) (columns values : List CStr) :
    insertWithId (st.setFile b x) table path schema idCol columns values =
      ((insertWithId st table path schema idCol columns values).1,
        (insertWithId st table path schema idCol columns values).2.setFile b x) := by
  unfold insertWithId
  rw [ensureMeta_setFile x st table hpath]
  dsimp only
  rcases (if columns = [] then Except.ok true else userHasId values.length columns) with
    e | _ | _ <;> dsimp only
  · rw [nextAutoId_setFile x _ table hpath]
    rcases nextAutoId (ensureMeta st table path idCol) table path idCol with ⟨_ | id, st₁⟩ <;>
      dsimp only
    cases buildRowInSchemaOrder schema ("id".toList :: columns) (intText id :: values) with
    | error e => rfl
    | ok row => exact finishInsert_setFile x _ table hpath _ _ _
  · cases buildRowInSchemaOrder schema columns values with
    | error e => rfl
    | ok row => exact finishInsert_setFile x _ table hpath _ _ _

omit hpath
include hb

theorem storageInsert_setFile (columns values : List CStr) :
    storageInsert (st.setFile b x) table columns values =
      ((storageInsert st table columns values).1,
        (storageInsert st table columns values).2.setFile b x) := by
  unfold storageInsert
  split
  · rfl
  rw [openTable_setFile hb]
  rcases hopen : openTable st table with ⟨_ | ⟨path, schema⟩, st₁⟩
  · rfl
  have hne := openTable_foreign hb (congrArg Prod.fst hopen)
  dsimp only
  cases findSchemaIndex schema "id".toList with
  | some idCol => exact insertWithId_setFile x st₁ table hne schema idCol columns values
  | none =>
    dsimp only
    cases buildRowInSchemaOrder schema columns values with
    | error e => rfl
    | ok row => exact congrArg (Prod.mk _) (appendCsvRow_setFile x st₁ hne row)

/-! ## Deleting and updating -/

theorem rewritePaths_setFile :
    rewritePaths .none (st.setFile b x) table =
      ((rewritePaths .none st table).1, (rewritePaths .none st table).2.setFile b x) := by
  have hprobe : ∀ st : Storage,
      (fun path => st.pathExists path && !RewriteFaults.none.probe path) = st.pathExists := by
    intro st
    funext path
    simp [RewriteFaults.none]
  have hschema := fun place name => (pathExists_setFile hb x st place name).1
  have htable := fun place name => (pathExists_setFile hb x st place name).2
  have htemp : buildTempPathWith (st.setFile b x).pathExists table =
      buildTempPathWith st.pathExists table := by
    unfold buildTempPathWith
    simp only [hschema, htable]
  unfold rewritePaths
  rw [hprobe, hprobe]
  dsimp only
  rw [buildSchemaPathWith_setFile x st table hschema]
  rcases buildSchemaPathWith st.pathExists st table with ⟨_ | sp, st₁⟩
  · rfl
  dsimp only
  rw [buildTablePathWith_setFile x st₁ table hschema htable]
  rcases buildTablePathWith st.pathExists st₁ table with ⟨_ | path, st₂⟩
  · rfl
  dsimp only
  rw [htemp]
  cases buildTempPathWith st.pathExists table <;> rfl

omit hb in
theorem rewriteRows_setFile {path temp : Path} (hpath : b ≠ path) (htemp : b ≠ temp) (width : ℕ)
    (plan : RowPlan) :
    rewriteRows .none (st.setFile b x) path temp width plan =
      ((rewriteRows .none st path temp width plan).1,
        (rewriteRows .none st path temp width plan).2.setFile b x) := by
  have hrewritten : rewrittenFile .none (st.setFile b x) path width plan =
      rewrittenFile .none st path width plan := by
    rw [rewrittenFile_none, setFile_files_of_ne x st hpath, rewrittenFile_none]
  unfold rewriteRows
  rw [hrewritten]
  cases rewrittenFile .none st path width plan with
  | none => exact congrArg (Prod.mk _) (setFile_comm x st htemp _)
  | some out =>
    simp only [replaceTableFile, RewriteFaults.none, Bool.false_eq_true, if_false]
    refine congrArg (Prod.mk _) ?_
    change (((appendFpInvalidate st path).setFile b x).setFile temp none).setFile path (some out) = _
    rw [setFile_comm x _ htemp, setFile_comm x _ hpath]

omit hb in
theorem rebuildIndexWith_setFile {path : Path} (hpath : b ≠ path) (idCol : Option ℕ) :
    rebuildIndexWith false (st.setFile b x) table path idCol =
      (rebuildIndexWith false st table path idCol).setFile b x := by
  have hdestroy : indexRegistryDestroyAll (st.setFile b x) =
      (indexRegistryDestroyAll st).setFile b x := rfl
  unfold rebuildIndexWith
  cases idCol with
  | none => rfl
  | some idCol =>
    dsimp only
    rw [hdestroy, indexRegistryGetOrCreate_setFile]
    rcases indexRegistryGetOrCreate (indexRegistryDestroyAll st) table with ⟨_ | tree, st₁⟩
    · rfl
    dsimp only
    simp only [Bool.false_eq_true, if_false]
    rw [setFile_files_of_ne x st₁ hpath, records_setFile x st₁ hpath]
    cases st₁.files path <;> rfl

theorem rewriteTable_setFile (plan : List ColDef → Option RowPlan) :
    rewriteTable .none (st.setFile b x) table plan =
      ((rewriteTable .none st table plan).1, (rewriteTable .none st table plan).2.setFile b x) := by
  unfold rewriteTable
  rw [rewritePaths_setFile hb]
  obtain ⟨-, hfst⟩ := rewritePaths_spec .none st table
  rcases hpaths : rewritePaths .none st table with ⟨paths, st₁⟩
  rw [hpaths] at hfst
  cases paths with
  | none => rfl
  | some paths =>
    obtain ⟨sp, path, temp⟩ := paths
    obtain ⟨⟨schemaPlace, name, rfl⟩, ⟨tablePlace, name', rfl⟩, tempPlace, rfl⟩ := hfst rfl
    dsimp only
    rw [loadSchema_setFile hb]
    simp only [RewriteFaults.none, Bool.false_eq_true, if_false]
    cases loadSchema st₁ (schemaPath schemaPlace name) with
    | none => rfl
    | some schema =>
      dsimp only
      cases plan schema with
      | none => rfl
      | some plan =>
        have hrows := rewriteRows_setFile x st₁ (hb tablePlace name').2.1
          (hb tempPlace table).2.2 schema.length plan
        rw [RewriteFaults.none] at hrows
        dsimp only
        rw [hrows]
        rcases rewriteRows _ st₁ (tablePath tablePlace name') (tempPath tempPlace table)
          schema.length plan with ⟨e | _, st₂⟩
        · rfl
        · exact congrArg (Prod.mk _)
            (rebuildIndexWith_setFile x (invalidateMetaCache st₂ table) table
              (hb tablePlace name').2.1 _)

/-! ## Creating -/

theorem createPaths_setFile :
    createPaths .none (st.setFile b x) table =
      ((createPaths .none st table).1, (createPaths .none st table).2.setFile b x) := by
  have hprobe : ∀ st : Storage,
      (fun path => st.pathExists path && !CreateFaults.none.probe path) = st.pathExists := by
    intro st
    funext path
    simp [CreateFaults.none]
  have hschema := fun place name => (pathExists_setFile hb x st place name).1
  have htable := fun place name => (pathExists_setFile hb x st place name).2
  unfold createPaths
  rw [hprobe, hprobe]
  dsimp only
  rw [buildSchemaPathWith_setFile x st table hschema]
  rcases buildSchemaPathWith st.pathExists st table with ⟨_ | sp, st₁⟩
  · rfl
  dsimp only
  rw [buildTablePathWith_setFile x st₁ table hschema htable]
  rcases buildTablePathWith st.pathExists st₁ table with ⟨_ | path, st₂⟩ <;> rfl

omit hb in
theorem writeSchema_setFile {sp path : Path} (hsp : b ≠ sp) (hpath : b ≠ path)
    (colDefs : List CStr) :
    writeSchema .none (st.setFile b x) sp path colDefs =
      ((writeSchema .none st sp path colDefs).1,
        (writeSchema .none st sp path colDefs).2.setFile b x) := by
  rw [writeSchema_none, writeSchema_none]
  cases schemaText (fun _ => false) colDefs 0 [] with
  | none => exact congrArg (Prod.mk _) (setFile_comm x st hsp _)
  | some text =>
    dsimp only
    rw [setFile_comm x st hsp, setFile_files_of_ne x _ hpath, setFile_comm x _ hpath]

theorem storageCreate_setFile (colDefs : List CStr) :
    storageCreate (st.setFile b x) table colDefs =
      ((storageCreate st table colDefs).1, (storageCreate st table colDefs).2.setFile b x) := by
  unfold storageCreate storageCreateWith
  split
  · rfl
  rw [createPaths_setFile hb]
  rcases hpaths : createPaths .none st table with ⟨_ | ⟨sp, path⟩, st₁⟩
  · rfl
  dsimp only
  have hne : b ≠ sp ∧ b ≠ path := by
    unfold createPaths at hpaths
    dsimp only at hpaths
    rcases hs : buildSchemaPathWith (fun path => st.pathExists path && !CreateFaults.none.probe path)
      st table with ⟨_ | sp', st₂⟩ <;> rw [hs] at hpaths
    · exact absurd (Prod.mk.inj hpaths).1 (by simp)
    dsimp only at hpaths
    rcases ht : buildTablePathWith (fun path => st.pathExists path && !CreateFaults.none.probe path)
      st₂ table with ⟨_ | path', st₃⟩ <;> rw [ht] at hpaths
    · exact absurd (Prod.mk.inj hpaths).1 (by simp)
    obtain ⟨rfl, rfl⟩ := Prod.mk.inj (Option.some.inj (Prod.mk.inj hpaths).1)
    obtain ⟨place, name, rfl⟩ := buildSchemaPathWith_fst (congrArg Prod.fst hs)
    obtain ⟨place', name', rfl⟩ := buildTablePathWith_fst (congrArg Prod.fst ht)
    exact ⟨(hb place name).1, (hb place' name').2.1⟩
  exact writeSchema_setFile x (createInvalidate st₁ table sp path) hne.1 hne.2 colDefs

variable [CDouble]

theorem storageDelete_setFile (sql : ParsedSQL) :
    storageDelete (st.setFile b x) table sql =
      ((storageDelete st table sql).1, (storageDelete st table sql).2.setFile b x) := by
  unfold storageDelete storageDeleteWith
  split
  · exact rewriteTable_setFile hb x st table _
  · rfl

theorem storageUpdate_setFile (sql : ParsedSQL) :
    storageUpdate (st.setFile b x) table sql =
      ((storageUpdate st table sql).1, (storageUpdate st table sql).2.setFile b x) := by
  unfold storageUpdate storageUpdateWith
  split
  · exact rewriteTable_setFile hb x st table _
  · rfl

/-! ## Selecting -/

/-- A SELECT whose rows come from the file of the table. -/
theorem storageSelectResult_setFile (sql : ParsedSQL) :
    storageSelectResult (st.setFile b x) table sql =
      ((storageSelectResult st table sql).1, (storageSelectResult st table sql).2.setFile b x) := by
  unfold storageSelectResult selectBy
  rw [openSelect_setFile hb]
  rcases hopen : openSelect st table with ⟨_ | ⟨path, schema⟩, st₁⟩
  · rfl
  have hne : b ≠ path := openSelect_foreign hb (congrArg Prod.fst hopen)
  dsimp only
  unfold scanRows
  rw [setFile_files_of_ne x st₁ hne]

end

end MiniSql

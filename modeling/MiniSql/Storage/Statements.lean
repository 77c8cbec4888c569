import MiniSql.Storage.InsertAtomic
import MiniSql.Storage.Rows
import MiniSql.Storage.Table

/-!
# The statements on one table

Every statement in the view of its own table: an INSERT appends a row to the text of the file,
a DELETE and an UPDATE replace the text, a CREATE replaces the schema, and filling the index
does nothing. All of them keep the caches sound.

## Main definitions

* `appendedRow` — the row that an INSERT appends.
* `rewrittenRows` — the rows that a DELETE or an UPDATE leaves.

## Main results

* `storageInsert_table`, `storageDelete_table`, `storageUpdate_table`, `storageCreate_view`,
  `selectBy_table`, `ensureIndex_table`.
-/

namespace MiniSql
open CText

/-! ## The index -/

section Index

variable {st : Storage} {table : CStr}

theorem markRebuilt_snd (st : Storage) (table : CStr) :
    ∃ rebuilt, markRebuilt st table = { st with indexRebuilt := rebuilt } := by
  unfold markRebuilt
  split <;> exact ⟨_, rfl⟩

theorem putMeta_snd (st : Storage) (table : CStr) (m : Meta) :
    ∃ cache, putMeta st table m = { st with metaCache := cache } := by
  unfold putMeta
  split <;> exact ⟨_, rfl⟩

theorem fillIndex_snd (st : Storage) (table : CStr) (path : Path) (schema : List ColDef)
    (idCol : ℕ) (tree : BPTree) : ∃ cache registry rebuilt,
      fillIndex st table path schema idCol tree =
        { st with metaCache := cache, registry := registry, indexRebuilt := rebuilt } := by
  have hput : ∀ (tree : BPTree) (m : Meta), ∃ cache registry rebuilt,
      markRebuilt (putMeta (setTree st table tree) table m) table =
        { st with metaCache := cache, registry := registry, indexRebuilt := rebuilt } := by
    intro tree m
    obtain ⟨cache, hmeta⟩ := putMeta_snd (setTree st table tree) table m
    obtain ⟨rebuilt, hmark⟩ := markRebuilt_snd (putMeta (setTree st table tree) table m) table
    exact ⟨cache, _, rebuilt, by rw [hmark, hmeta]; rfl⟩
  unfold fillIndex
  dsimp only
  split
  · exact hput _ _
  · split
    · obtain ⟨rebuilt, hmark⟩ := markRebuilt_snd st table
      exact ⟨_, _, rebuilt, hmark⟩
    · exact hput _ _

/-- Caches that the view does not read. -/
theorem Storage.Coherent.index (hc : st.Coherent table) (cache : Slots CStr Meta)
    (registry : Slots CStr BPTree) (rebuilt : List CStr) :
    ({ st with metaCache := cache, registry := registry, indexRebuilt := rebuilt } : Storage).Coherent
      table :=
  ⟨hc.schemaPlace, hc.tablePlace, hc.schema, hc.handle⟩

/-- Filling the index changes no file. -/
theorem ensureIndex_view (hshort : table.length ≤ nameMax) (hc : st.Coherent table) :
    (ensureIndex st table).files = st.files ∧ (ensureIndex st table).Coherent table := by
  obtain ⟨paths, schemas, hopen, hc'⟩ := openTable_view hshort hc
  rw [ensureIndex_eq, hopen]
  split
  · exact ⟨rfl, hc⟩
  cases st.tableSchema table with
  | none => exact ⟨rfl, hc'⟩
  | some schema =>
    dsimp only [Option.map_some]
    split
    · obtain ⟨rebuilt, hmark⟩ := markRebuilt_snd
        { st with pathCache := paths, schemaCache := schemas } table
      rw [hmark]
      exact ⟨rfl, hc'.index _ _ rebuilt⟩
    · obtain ⟨registry, hreg⟩ := indexRegistryGetOrCreate_snd
        { st with pathCache := paths, schemaCache := schemas } table
      rcases hget : indexRegistryGetOrCreate
        { st with pathCache := paths, schemaCache := schemas } table with ⟨_ | tree, st₂⟩ <;>
        rw [hget] at hreg <;> subst hreg <;> dsimp only
      · exact ⟨rfl, hc'.index _ registry _⟩
      · obtain ⟨cache, registry', rebuilt, hfill⟩ := fillIndex_snd
          { st with pathCache := paths, schemaCache := schemas, registry := registry } table
          (st.tableFile table) schema ‹ℕ› tree
        rw [hfill]
        exact ⟨rfl, hc'.index cache registry' rebuilt⟩

end Index

/-! ## Inserting -/

/-- The id of a row that comes without one. -/
def Storage.autoId (st : Storage) (table : CStr) (idCol : ℕ) : Option ℤ :=
  (nextAutoId (ensureMeta st table (st.tableFile table) idCol) table (st.tableFile table) idCol).1

/-- The row that an INSERT builds for a table with the given schema. -/
def insertedRow (st : Storage) (table : CStr) (columns values : List CStr) (schema : List ColDef) :
    Option Row :=
  match findSchemaIndex schema "id".toList with
  | none => (buildRowInSchemaOrder schema columns values).toOption
  | some idCol =>
    match if columns = [] then .ok true else userHasId values.length columns with
    | .error _ => none
    | .ok true => (buildRowInSchemaOrder schema columns values).toOption
    | .ok false => (st.autoId table idCol).bind fun id =>
      (buildRowInSchemaOrder schema ("id".toList :: columns) (intText id :: values)).toOption

/-- The row that an INSERT appends to the file, also where it then fails. -/
def appendedRow (st : Storage) (table : CStr) (columns values : List CStr) : Option Row :=
  if table = [] ∨ values = [] then none
  else (st.tableSchema table).bind (insertedRow st table columns values)

theorem appendedRow_eq_some {st : Storage} {table : CStr} {columns values : List CStr} {row : Row}
    (h : appendedRow st table columns values = some row) :
    ∃ schema, st.tableSchema table = some schema ∧
      insertedRow st table columns values schema = some row := by
  unfold appendedRow at h
  split at h
  · exact absurd h (by simp)
  · exact Option.bind_eq_some_iff.mp h

theorem insertedRow_of_appended {st : Storage} {table : CStr} {columns values : List CStr}
    {schema : List ColDef} {row : Row} (hschema : st.tableSchema table = some schema)
    (h : appendedRow st table columns values = some row) :
    insertedRow st table columns values schema = some row := by
  obtain ⟨schema', hschema', hrow⟩ := appendedRow_eq_some h
  obtain rfl := Option.some.inj (hschema.symm.trans hschema')
  exact hrow

/-- The text of the file once a row was appended. -/
def withRow (content : Option CStr) : Option Row → Option CStr
  | none => content
  | some row => some (content.getD [] ++ writeCsvRow row)

section Insert

variable {st : Storage} {table : CStr}

theorem appendCsvRow_view (hc : st.Coherent table) (row : Row) :
    Writes table st (appendCsvRow st (st.tableFile table) row) ∧
      (appendCsvRow st (st.tableFile table) row).files (st.tableFile table) =
        withRow (st.content table) (some row) := by
  have hfiles := appendCsvRow_files st (st.tableFile table) row
  have hlost : ¬ st.Lost (st.tableFile table) := hc.handle (st.tablePlace table)
  rw [if_neg hlost] at hfiles
  have hcontent : (appendCsvRow st (st.tableFile table) row).files (st.tableFile table) =
      withRow (st.content table) (some row) := by
    rw [hfiles, Function.update_self]
    rfl
  have hhandles : ∀ path ∈ (appendCsvRow st (st.tableFile table) row).appendFp,
      path ∈ st.appendFp ∨ path = st.tableFile table := by
    have hget : ∀ path ∈ (appendFpGet st (st.tableFile table)).appendFp,
        path ∈ st.appendFp ∨ path = st.tableFile table := by
      intro path hpath
      unfold appendFpGet at hpath
      split at hpath
      · exact .inl hpath
      · rcases List.mem_append.mp hpath with hold | hnew
        · split at hold
          · exact .inl (List.mem_of_mem_tail hold)
          · exact .inl hold
        · exact .inr (List.mem_singleton.mp hnew)
    intro path hpath
    unfold appendCsvRow at hpath
    dsimp only at hpath
    split at hpath
    · exact hget path hpath
    · exact hget path hpath
  have hfixed : (appendCsvRow st (st.tableFile table) row).pathCache = st.pathCache ∧
      (appendCsvRow st (st.tableFile table) row).schemaCache = st.schemaCache := by
    obtain ⟨files, fps, happ⟩ := appendCsvRow_snd st (st.tableFile table) row
    rw [happ]
    exact ⟨rfl, rfl⟩
  refine ⟨⟨fun path _ hpath => ?_, .inr ?_, hfixed.1, hfixed.2, fun path hpath => ?_⟩, hcontent⟩
  · rw [hfiles, Function.update_of_ne hpath]
  · rw [hcontent]
    simp [withRow]
  · rcases hhandles path hpath with hold | rfl
    · exact .inl hold
    · refine .inr ?_
      rw [hcontent]
      simp [withRow]

theorem Writes.refl (table : CStr) (st : Storage) : Writes table st st :=
  ⟨fun _ _ _ => rfl, .inl rfl, rfl, rfl, fun _ h => .inl h⟩

/-- Caches that the view does not read may change as well. -/
theorem Writes.index {st' : Storage} (h : Writes table st st') (cache : Slots CStr Meta)
    (registry : Slots CStr BPTree) :
    Writes table st { st' with metaCache := cache, registry := registry } :=
  ⟨h.files, h.content, h.paths, h.schemas, h.handles⟩

theorem finishInsert_view (hc : st.Coherent table) (idCol : ℕ) (row : Row) (auto : Option ℤ) :
    Writes table st (finishInsert st table (st.tableFile table) idCol row auto).2 ∧
      (finishInsert st table (st.tableFile table) idCol row auto).2.files (st.tableFile table) =
        withRow (st.content table) (some row) := by
  obtain ⟨hwrites, hcontent⟩ := appendCsvRow_view hc row
  have hspec := finishInsert_spec st table (st.tableFile table) idCol row auto
  split at hspec
  · rw [hspec]
    exact ⟨hwrites, hcontent⟩
  · obtain ⟨registry, cache, hfin⟩ := hspec
    rw [hfin]
    exact ⟨hwrites.index cache registry, hcontent⟩

/-- The counters that are looked up do not depend on the paths and schemas in the caches. -/
theorem autoId_eq (st : Storage) (paths : Slots CStr TablePaths) (schemas : Slots Path (List ColDef))
    (table : CStr) (path : Path) (idCol : ℕ) :
    (nextAutoId (ensureMeta { st with pathCache := paths, schemaCache := schemas } table path idCol)
        table path idCol).1 = (nextAutoId (ensureMeta st table path idCol) table path idCol).1 := by
  have hens : ensureMeta { st with pathCache := paths, schemaCache := schemas } table path idCol =
      { ensureMeta st table path idCol with pathCache := paths, schemaCache := schemas } := by
    unfold ensureMeta
    dsimp only
    split <;> rfl
  have hnext : ∀ st : Storage, (nextAutoId { st with pathCache := paths, schemaCache := schemas }
      table path idCol).1 = (nextAutoId st table path idCol).1 := by
    intro st
    have href : refreshMeta { st with pathCache := paths, schemaCache := schemas } table path =
        { refreshMeta st table path with pathCache := paths, schemaCache := schemas } := by
      unfold refreshMeta appendFpIsOpen
      dsimp only
      split
      · split <;> rfl
      · rfl
    unfold nextAutoId
    rw [href]
    dsimp only
    cases (refreshMeta st table path).metaCache.find table with
    | some m => rfl
    | none => dsimp only; split <;> rfl
  rw [hens, hnext]

/-- **An INSERT appends the row it builds, or leaves the table as it is.** -/
theorem storageInsert_view (hshort : table.length ≤ nameMax) (hc : st.Coherent table)
    (columns values : List CStr) :
    ∃ paths schemas,
      ({ st with pathCache := paths, schemaCache := schemas } : Storage).Coherent table ∧
      Writes table { st with pathCache := paths, schemaCache := schemas }
        (storageInsert st table columns values).2 ∧
      (storageInsert st table columns values).2.files (st.tableFile table) =
        withRow (st.content table) (appendedRow st table columns values) ∧
      ((storageInsert st table columns values).1 = .ok () →
        (appendedRow st table columns values).isSome) := by
  unfold storageInsert appendedRow
  by_cases hargs : table = [] ∨ values = []
  · rw [if_pos hargs, if_pos hargs]
    exact ⟨_, _, hc, Writes.refl table st, rfl, fun h => absurd h (by simp)⟩
  rw [if_neg hargs, if_neg hargs]
  obtain ⟨paths, schemas, hopen, hc'⟩ := openTable_view hshort hc
  rw [hopen]
  refine ⟨paths, schemas, hc', ?_⟩
  set st₁ : Storage := { st with pathCache := paths, schemaCache := schemas } with hst₁
  cases st.tableSchema table with
  | none => exact ⟨.refl table st₁, rfl, fun h => absurd h (by simp)⟩
  | some schema =>
    rw [Option.map_some, Option.bind_some]
    dsimp only
    unfold insertedRow
    cases hidx : findSchemaIndex schema "id".toList with
    | none =>
      dsimp only
      cases buildRowInSchemaOrder schema columns values with
      | error e => exact ⟨.refl table st₁, rfl, fun h => absurd h (by simp)⟩
      | ok row =>
        obtain ⟨hwrites, hcontent⟩ := appendCsvRow_view hc' row
        exact ⟨hwrites, hcontent, fun _ => rfl⟩
    | some idCol =>
      dsimp only
      unfold insertWithId
      obtain ⟨cache, hens, -⟩ := ensureMeta_snd st₁ table (st.tableFile table) idCol
      have hauto : (nextAutoId (ensureMeta st₁ table (st.tableFile table) idCol) table
          (st.tableFile table) idCol).1 = st.autoId table idCol :=
        autoId_eq st paths schemas table (st.tableFile table) idCol
      have hc'' := hc'.index cache st₁.registry st₁.indexRebuilt
      rw [hens] at hauto ⊢
      have hkeep := (Writes.refl table st₁).index cache st₁.registry
      dsimp only
      rcases (if columns = [] then Except.ok true else userHasId values.length columns) with
        e | _ | _ <;> dsimp only
      · exact ⟨hkeep, rfl, fun h => absurd h (by simp)⟩
      rotate_left
      · cases buildRowInSchemaOrder schema columns values with
        | error e => exact ⟨hkeep, rfl, fun h => absurd h (by simp)⟩
        | ok row =>
          obtain ⟨hwrites, hcontent⟩ := finishInsert_view hc'' idCol row none
          exact ⟨⟨hwrites.files, hwrites.content, hwrites.paths, hwrites.schemas, hwrites.handles⟩,
            hcontent, fun _ => rfl⟩
      · obtain ⟨cache', hnext, -⟩ := nextAutoId_snd { st₁ with metaCache := cache } table
          (st.tableFile table) idCol
        rcases hres : nextAutoId { st₁ with metaCache := cache } table (st.tableFile table) idCol with
          ⟨_ | id, st₂⟩ <;> rw [hres] at hnext hauto <;> subst hnext <;> dsimp only at hauto ⊢ <;>
          rw [← hauto]
        · exact ⟨(Writes.refl table st₁).index cache' st₁.registry, rfl, fun h => absurd h (by simp)⟩
        · rw [Option.bind_some]
          cases buildRowInSchemaOrder schema ("id".toList :: columns) (intText id :: values) with
          | error e =>
            exact ⟨(Writes.refl table st₁).index cache' st₁.registry, rfl,
              fun h => absurd h (by simp)⟩
          | ok row =>
            obtain ⟨hwrites, hcontent⟩ := finishInsert_view
              (hc'.index cache' st₁.registry st₁.indexRebuilt) idCol row (some id)
            exact ⟨⟨hwrites.files, hwrites.content, hwrites.paths, hwrites.schemas, hwrites.handles⟩,
              hcontent, fun _ => rfl⟩

end Insert

/-! ## Deleting and updating -/

/-- The rows that a DELETE or an UPDATE leaves, where it succeeds. -/
def rewrittenRows (st : Storage) (table : CStr) (plan : List ColDef → Option RowPlan) :
    Option (List Row) :=
  (st.tableSchema table).bind fun schema => (plan schema).bind fun rowPlan =>
    (st.content table).bind fun file => (loadTableRows file schema.length).bind (planRows rowPlan)

section Rewrite

variable {st : Storage} {table : CStr}

theorem rebuildIndexWith_snd (openFails : Bool) (st : Storage) (table : CStr) (path : Path)
    (idCol : Option ℕ) :
    ∃ registry, rebuildIndexWith openFails st table path idCol = { st with registry := registry } := by
  unfold rebuildIndexWith
  split
  · exact ⟨_, rfl⟩
  · obtain ⟨registry, hreg⟩ := indexRegistryGetOrCreate_snd (indexRegistryDestroyAll st) table
    rcases hget : indexRegistryGetOrCreate (indexRegistryDestroyAll st) table with
      ⟨_ | tree, st₂⟩ <;> rw [hget] at hreg <;> subst hreg <;> dsimp only
    · exact ⟨_, rfl⟩
    · split
      · exact ⟨_, rfl⟩
      · exact ⟨_, rfl⟩

/-- The three paths, all where the files say. -/
theorem rewritePaths_view (hshort : table.length ≤ nameMax) (hc : st.Coherent table) :
    ∃ paths, rewritePaths .none st table =
        (some (st.schemaFile table, st.tableFile table, tempPath (st.tablePlace table) table),
          { st with pathCache := paths }) ∧
      ({ st with pathCache := paths } : Storage).Coherent table := by
  have hprobe : (fun path => st.pathExists path && !RewriteFaults.none.probe path) =
      st.pathExists := by
    funext path
    simp [RewriteFaults.none]
  obtain ⟨c₁, h₁, hc₁⟩ := buildSchemaPath_view hshort hc
  obtain ⟨c₂, h₂, hc₂⟩ := buildTablePath_view hshort hc₁
  have htemp : buildTempPathWith st.pathExists table = some (tempPath (st.tablePlace table) table) := by
    have hnested := fitsPath_of_short hshort .nested
    have hlegacy := fitsPath_of_short hshort .legacy
    unfold buildTempPathWith Storage.tablePlace
    rw [if_neg (by simp [hnested, hlegacy])]
    simp only [Bool.not_or, hlegacy.2.2, if_true]
    split <;> rfl
  refine ⟨c₂, ?_, hc₂⟩
  unfold rewritePaths
  rw [hprobe]
  dsimp only
  rw [h₁]
  dsimp only
  have h₂' : buildTablePathWith st.pathExists { st with pathCache := c₁ } table =
      (some (st.tableFile table), { st with pathCache := c₂ }) := h₂
  rw [h₂']
  dsimp only
  rw [htemp]

/-- **A DELETE or an UPDATE writes the rows it leaves, or leaves the table as it is.** -/
theorem rewriteTable_view (hshort : table.length ≤ nameMax) (hc : st.Coherent table)
    (plan : List ColDef → Option RowPlan) :
    ∃ paths, ({ st with pathCache := paths } : Storage).Coherent table ∧
      Writes table { st with pathCache := paths } (rewriteTable .none st table plan).2 ∧
      match rewrittenRows st table plan with
      | none => (rewriteTable .none st table plan).1 = .error .failed ∧
        (rewriteTable .none st table plan).2.files (st.tableFile table) = st.content table
      | some rows => (rewriteTable .none st table plan).1 = .ok () ∧
        (rewriteTable .none st table plan).2.files (st.tableFile table) =
          some (rows.flatMap writeCsvRow) := by
  obtain ⟨paths, hpaths, hc'⟩ := rewritePaths_view hshort hc
  refine ⟨paths, hc', ?_⟩
  set st₁ : Storage := { st with pathCache := paths } with hst₁
  have hload : loadSchema st₁ (st.schemaFile table) = st.tableSchema table := rfl
  unfold rewriteTable rewrittenRows
  rw [hpaths]
  dsimp only
  rw [if_neg (by simp [RewriteFaults.none]), hload]
  cases st.tableSchema table with
  | none => exact ⟨.refl table st₁, rfl, rfl⟩
  | some schema =>
    rw [Option.bind_some]
    dsimp only
    cases plan schema with
    | none => exact ⟨.refl table st₁, rfl, rfl⟩
    | some rowPlan =>
      rw [Option.bind_some]
      dsimp only
      have htemp : ∀ place, tempPath place table ≠ st.tableFile table :=
        fun place => tempPath_ne_tablePath place _ table table
      have hrewritten : rewrittenFile .none st₁ (st.tableFile table) schema.length rowPlan =
          ((st.content table).bind fun file =>
            (loadTableRows file schema.length).bind (planRows rowPlan)).map
              fun kept => kept.flatMap writeCsvRow :=
        rewrittenFile_none st₁ (st.tableFile table) schema.length rowPlan
      unfold rewriteRows
      rw [hrewritten]
      cases (st.content table).bind fun file =>
        (loadTableRows file schema.length).bind (planRows rowPlan) with
      | none =>
        have hfile : (st₁.setFile (tempPath (st.tablePlace table) table) none).files
            (st.tableFile table) = st.content table :=
          Function.update_of_ne (htemp _).symm _ _
        refine ⟨⟨fun path hpath _ => ?_, .inl hfile, rfl, rfl, fun _ h => .inl h⟩, rfl, hfile⟩
        exact Function.update_of_ne (hpath _) _ _
      | some kept =>
        dsimp only [Option.map_some, replaceTableFile, RewriteFaults.none]
        obtain ⟨registry, hindex⟩ := rebuildIndexWith_snd false (invalidateMetaCache
          (((appendFpInvalidate st₁ (st.tableFile table)).setFile
            (tempPath (st.tablePlace table) table) none).setFile (st.tableFile table)
              (some (kept.flatMap writeCsvRow))) table) table (st.tableFile table)
          (findSchemaIndex schema "id".toList)
        simp only [Bool.false_eq_true, if_false]
        rw [hindex]
        have hfile : (((appendFpInvalidate st₁ (st.tableFile table)).setFile
            (tempPath (st.tablePlace table) table) none).setFile (st.tableFile table)
              (some (kept.flatMap writeCsvRow))).files (st.tableFile table) =
                some (kept.flatMap writeCsvRow) := Function.update_self ..
        refine ⟨⟨fun path hpath htable => ?_, .inr ?_, rfl, rfl, fun path h => ?_⟩, trivial, hfile⟩
        · change path ≠ st.tableFile table at htable
          change Function.update (Function.update st₁.files _ none) _ _ path = _
          rw [Function.update_of_ne htable, Function.update_of_ne (hpath _)]
        · exact fun h => absurd (hfile.symm.trans h) (by simp)
        · exact .inl (List.mem_of_mem_erase h)

end Rewrite

/-! ## Creating -/

section Create

variable {st : Storage} {table : CStr}

/-- Both paths, where the files say. -/
theorem createPaths_view (hshort : table.length ≤ nameMax) (hc : st.Coherent table) :
    ∃ paths, createPaths .none st table =
        (some (st.schemaFile table, st.tableFile table), { st with pathCache := paths }) := by
  have hprobe : (fun path => st.pathExists path && !CreateFaults.none.probe path) =
      st.pathExists := by
    funext path
    simp [CreateFaults.none]
  obtain ⟨c₁, h₁, hc₁⟩ := buildSchemaPath_view hshort hc
  obtain ⟨c₂, h₂, hc₂⟩ := buildTablePath_view hshort hc₁
  refine ⟨c₂, ?_⟩
  unfold createPaths
  rw [hprobe]
  dsimp only
  rw [h₁]
  dsimp only
  have h₂' : buildTablePathWith st.pathExists { st with pathCache := c₁ } table =
      (some (st.tableFile table), { st with pathCache := c₂ }) := h₂
  rw [h₂']

/-- Without an entry in the path cache only the schemas and the handles can be wrong. -/
theorem coherent_of_forgotten {st' : Storage} (hpaths : st'.pathCache.find table = none)
    (hschema : ∀ place schema, st'.schemaCache.find (schemaPath place table) = some schema →
      loadSchema st' (schemaPath place table) = some schema)
    (hhandle : ∀ place, ¬ st'.Lost (tablePath place table)) : st'.Coherent table :=
  ⟨fun e he => absurd (hpaths.symm.trans he) (by simp),
    fun e he => absurd (hpaths.symm.trans he) (by simp), hschema, hhandle⟩

theorem writeSchema_none (st : Storage) (sp path : Path) (colDefs : List CStr) :
    writeSchema .none st sp path colDefs =
      match schemaText (fun _ => false) colDefs 0 [] with
      | none => (.error .failed, st.setFile sp none)
      | some text => (.ok (), (st.setFile sp (some text)).setFile path
        (some (((st.setFile sp (some text)).files path).getD []))) := by
  cases htext : schemaText (fun _ => false) colDefs 0 [] <;>
    simp [writeSchema, CreateFaults.none, createCleanup, htext]

/-- **A CREATE that gets as far as its paths writes the schema and leaves the rows, or removes the
schema.** -/
theorem storageCreate_view (hshort : table.length ≤ nameMax) (hs : st.Wf) (hc : st.Coherent table)
    {colDefs : List CStr} (hargs : table ≠ [] ∧ colDefs ≠ []) :
    (storageCreate st table colDefs).2.Coherent table ∧
      match schemaText (fun _ => false) colDefs 0 [] with
      | none => (storageCreate st table colDefs).1 = .error .failed ∧
        (storageCreate st table colDefs).2.files =
          Function.update st.files (st.schemaFile table) none
      | some text => (storageCreate st table colDefs).1 = .ok () ∧
        (storageCreate st table colDefs).2.files =
          Function.update (Function.update st.files (st.schemaFile table) (some text))
            (st.tableFile table) (some ((st.content table).getD [])) := by
  obtain ⟨paths, hpaths⟩ := createPaths_view hshort hc
  have hargs' : ¬ (table = [] ∨ colDefs = [] ∨ CreateFaults.none.mkdir = true) := by
    simp [hargs.1, hargs.2, CreateFaults.none]
  have hwf : ({ st with pathCache := paths } : Storage).Wf := by
    have htouch := (@touches_createPaths st table .none hs hshort).1
    rw [hpaths] at htouch
    exact htouch.wf hs
  unfold storageCreate storageCreateWith
  rw [if_neg hargs', hpaths]
  dsimp only
  set st₁ : Storage := createInvalidate { st with pathCache := paths } table (st.schemaFile table)
    (st.tableFile table) with hst₁
  have hfiles : st₁.files = st.files := rfl
  -- what is left in the caches
  have hforgotten : st₁.pathCache.find table = none := Slots.find_remove_self hwf.paths
  have hcached : ∀ place schema, st₁.schemaCache.find (schemaPath place table) = some schema →
      schemaPath place table ≠ st.schemaFile table ∧
        loadSchema st (schemaPath place table) = some schema := by
    intro place schema h
    change (st.schemaCache.remove (st.schemaFile table)).find _ = _ at h
    have hne : schemaPath place table ≠ st.schemaFile table := by
      intro heq
      rw [heq, Slots.find_remove_self hs.schemas] at h
      exact absurd h (by simp)
    rw [Slots.find_remove_of_ne _ hne] at h
    exact ⟨hne, hc.schema place schema h⟩
  have hhandle : ∀ place, tablePath place table ∈ st₁.appendFp →
      st.files (tablePath place table) ≠ none :=
    fun place hopen hgone => hc.handle place ⟨List.mem_of_mem_erase hopen, hgone⟩
  have htable : ∀ place, tablePath place table ≠ st.schemaFile table :=
    fun place => (schemaPath_ne_tablePath _ place table table).symm
  have htable' : ∀ place, schemaPath place table ≠ st.tableFile table :=
    fun place => schemaPath_ne_tablePath place _ table table
  rw [writeSchema_none]
  cases schemaText (fun _ => false) colDefs 0 [] with
  | none =>
    refine ⟨coherent_of_forgotten hforgotten (fun place schema h => ?_) fun place h => ?_, rfl, ?_⟩
    · obtain ⟨hne, hload⟩ := hcached place schema h
      rw [loadSchema, Storage.setFile_files, Function.update_of_ne hne]
      exact hload
    · refine hhandle place h.1 ?_
      have hgone := h.2
      rw [Storage.setFile_files, Function.update_of_ne (htable place)] at hgone
      exact hgone
    · rfl
  | some text =>
    dsimp only
    have hkeep : (st₁.setFile (st.schemaFile table) (some text)).files (st.tableFile table) =
        st.content table := Function.update_of_ne (htable _) _ _
    rw [hkeep]
    refine ⟨coherent_of_forgotten hforgotten (fun place schema h => ?_) fun place h => ?_, rfl, ?_⟩
    · obtain ⟨hne, hload⟩ := hcached place schema h
      rw [loadSchema, Storage.setFile_files, Storage.setFile_files,
        Function.update_of_ne (htable' place), Function.update_of_ne hne]
      exact hload
    · have hgone := h.2
      rw [Storage.setFile_files, Storage.setFile_files] at hgone
      by_cases hplace : tablePath place table = st.tableFile table
      · rw [hplace, Function.update_self] at hgone
        exact absurd hgone (by simp)
      · rw [Function.update_of_ne hplace, Function.update_of_ne (htable place)] at hgone
        exact hhandle place h.1 hgone
    · rfl

end Create

/-! ## Sound states -/

section Sound

variable {st : Storage} {table : CStr}

/-- A statement that wrote the file of its table keeps everything sound, and the table where it
was. -/
theorem Writes.sound {st₁ st' : Storage} (hs : st.Sound) (hplain : PlainName table)
    (htouch : Touches table st st') (hwrites : Writes table st₁ st') (hc : st₁.Coherent table)
    (hfiles : st₁.files = st.files) :
    st'.Sound ∧ st'.tableFile table = st.tableFile table ∧
      st'.tableSchema table = st.tableSchema table := by
  have hsame : SameTable table st st₁ := sameTable_of_own fun path _ => by rw [hfiles]
  exact ⟨hs.of_touches hplain htouch (hwrites.coherent hc),
    hwrites.tableFile_eq.trans hsame.tableFile, hwrites.tableSchema_eq.trans hsame.tableSchema⟩

/-- **What an INSERT does to its table.** -/
theorem storageInsert_table (hs : st.Sound) (hplain : PlainName table) (columns values : List CStr) :
    (storageInsert st table columns values).2.Sound ∧
      (storageInsert st table columns values).2.tableFile table = st.tableFile table ∧
      (storageInsert st table columns values).2.tableSchema table = st.tableSchema table ∧
      (storageInsert st table columns values).2.content table =
        withRow (st.content table) (appendedRow st table columns values) ∧
      ((storageInsert st table columns values).1 = .ok () →
        (appendedRow st table columns values).isSome) := by
  obtain ⟨paths, schemas, hc, hwrites, hcontent, hok⟩ :=
    storageInsert_view hplain.1 (hs.coherent table hplain) columns values
  obtain ⟨hsound, hfile, hschema⟩ := hwrites.sound hs hplain
    (touches_storageInsert hs.wf hplain.1 columns values) hc rfl
  exact ⟨hsound, hfile, hschema, by rw [Storage.content, hfile]; exact hcontent, hok⟩

/-- What a DELETE or an UPDATE does to its table. -/
theorem rewriteTable_table (hs : st.Sound) (hplain : PlainName table)
    (plan : List ColDef → Option RowPlan) :
    (rewriteTable .none st table plan).2.Sound ∧
      (rewriteTable .none st table plan).2.tableFile table = st.tableFile table ∧
      (rewriteTable .none st table plan).2.tableSchema table = st.tableSchema table ∧
      match rewrittenRows st table plan with
      | none => (rewriteTable .none st table plan).1 = .error .failed ∧
        (rewriteTable .none st table plan).2.content table = st.content table
      | some rows => (rewriteTable .none st table plan).1 = .ok () ∧
        (rewriteTable .none st table plan).2.content table = some (rows.flatMap writeCsvRow) := by
  obtain ⟨paths, hc, hwrites, hresult⟩ :=
    rewriteTable_view hplain.1 (hs.coherent table hplain) plan
  obtain ⟨hsound, hfile, hschema⟩ := hwrites.sound hs hplain
    (touches_rewriteTable hs.wf hplain.1 plan) hc rfl
  refine ⟨hsound, hfile, hschema, ?_⟩
  rw [Storage.content, hfile]
  exact hresult

/-- The rows that a statement behind the check of its arguments leaves. -/
def deletedRows [CDouble] (st : Storage) (table : CStr) (sql : ParsedSQL) : Option (List Row) :=
  if validateDeleteInput table sql then rewrittenRows st table (deletePlan sql) else none

def updatedRows [CDouble] (st : Storage) (table : CStr) (sql : ParsedSQL) : Option (List Row) :=
  if validateUpdateInput table sql then rewrittenRows st table (updatePlan sql) else none

/-- **What a DELETE does to its table.** -/
theorem storageDelete_table [CDouble] (hs : st.Sound) (hplain : PlainName table) (sql : ParsedSQL) :
    (storageDelete st table sql).2.Sound ∧
      (storageDelete st table sql).2.tableFile table = st.tableFile table ∧
      (storageDelete st table sql).2.tableSchema table = st.tableSchema table ∧
      match deletedRows st table sql with
      | none => (storageDelete st table sql).1 = .error .failed ∧
        (storageDelete st table sql).2.content table = st.content table
      | some rows => (storageDelete st table sql).1 = .ok () ∧
        (storageDelete st table sql).2.content table = some (rows.flatMap writeCsvRow) := by
  unfold storageDelete storageDeleteWith deletedRows
  split
  · exact rewriteTable_table hs hplain _
  · exact ⟨hs, rfl, rfl, rfl, rfl⟩

/-- **What an UPDATE does to its table.** -/
theorem storageUpdate_table [CDouble] (hs : st.Sound) (hplain : PlainName table) (sql : ParsedSQL) :
    (storageUpdate st table sql).2.Sound ∧
      (storageUpdate st table sql).2.tableFile table = st.tableFile table ∧
      (storageUpdate st table sql).2.tableSchema table = st.tableSchema table ∧
      match updatedRows st table sql with
      | none => (storageUpdate st table sql).1 = .error .failed ∧
        (storageUpdate st table sql).2.content table = st.content table
      | some rows => (storageUpdate st table sql).1 = .ok () ∧
        (storageUpdate st table sql).2.content table = some (rows.flatMap writeCsvRow) := by
  unfold storageUpdate storageUpdateWith updatedRows
  split
  · exact rewriteTable_table hs hplain _
  · exact ⟨hs, rfl, rfl, rfl, rfl⟩

/-- A successful INSERT has appended a row. -/
theorem storageInsert_ok (hs : st.Sound) (hplain : PlainName table) {columns values : List CStr}
    {st' : Storage} (h : storageInsert st table columns values = (.ok (), st')) :
    ∃ schema row, st.tableSchema table = some schema ∧
      insertedRow st table columns values schema = some row ∧
        st'.content table = withRow (st.content table) (some row) := by
  obtain ⟨-, -, -, hcontent, happend⟩ := storageInsert_table hs hplain columns values
  rw [h] at hcontent happend
  obtain ⟨row, hrow⟩ := Option.isSome_iff_exists.mp (happend rfl)
  rw [hrow] at hcontent
  obtain ⟨schema, hschema, hinserted⟩ := appendedRow_eq_some hrow
  exact ⟨schema, row, hschema, hinserted, hcontent⟩

/-- A successful DELETE has written the rows it leaves. -/
theorem storageDelete_ok [CDouble] (hs : st.Sound) (hplain : PlainName table) {sql : ParsedSQL}
    {st' : Storage} (h : storageDelete st table sql = (.ok (), st')) :
    ∃ rows, rewrittenRows st table (deletePlan sql) = some rows ∧
      st'.content table = some (rows.flatMap writeCsvRow) := by
  obtain ⟨-, -, -, hresult⟩ := storageDelete_table hs hplain sql
  rw [h] at hresult
  unfold deletedRows at hresult
  split at hresult
  · exact absurd hresult.1 (by simp)
  · rename_i rows hrows
    split at hrows
    · exact ⟨rows, hrows, hresult.2⟩
    · exact absurd hrows (by simp)

/-- A successful UPDATE has written the rows it leaves. -/
theorem storageUpdate_ok [CDouble] (hs : st.Sound) (hplain : PlainName table) {sql : ParsedSQL}
    {st' : Storage} (h : storageUpdate st table sql = (.ok (), st')) :
    ∃ rows, rewrittenRows st table (updatePlan sql) = some rows ∧
      st'.content table = some (rows.flatMap writeCsvRow) := by
  obtain ⟨-, -, -, hresult⟩ := storageUpdate_table hs hplain sql
  rw [h] at hresult
  unfold updatedRows at hresult
  split at hresult
  · exact absurd hresult.1 (by simp)
  · rename_i rows hrows
    split at hrows
    · exact ⟨rows, hrows, hresult.2⟩
    · exact absurd hrows (by simp)

theorem sound_storageCreate (hs : st.Sound) (hplain : PlainName table) (colDefs : List CStr) :
    (storageCreate st table colDefs).2.Sound := by
  by_cases hargs : table ≠ [] ∧ colDefs ≠ []
  · exact hs.of_touches hplain (touches_storageCreate hs.wf hplain.1 colDefs)
      (storageCreate_view hplain.1 hs.wf (hs.coherent table hplain) hargs).1
  · have hbad : table = [] ∨ colDefs = [] ∨ CreateFaults.none.mkdir = true := by tauto
    rw [storageCreate, storageCreateWith, if_pos hbad]
    exact hs

/-- A CREATE replaces the schema and keeps the text, where the file of the table stays where
it is. -/
theorem storageCreate_ok (hs : st.Sound) (hplain : PlainName table) {colDefs : List CStr}
    (hargs : table ≠ [] ∧ colDefs ≠ []) {text : CStr}
    (htext : schemaText (fun _ => false) colDefs 0 [] = some text)
    (hplace : st.tablePlace table = .legacy → st.schemaPlace table = .legacy) :
    (storageCreate st table colDefs).1 = .ok () ∧
      (storageCreate st table colDefs).2.tableSchema table = parseSchema text ∧
      (storageCreate st table colDefs).2.content table = some ((st.content table).getD []) := by
  have hview := (storageCreate_view hplain.1 hs.wf (hs.coherent table hplain) hargs).2
  rw [htext] at hview
  obtain ⟨hok, hfiles⟩ := hview
  rw [Storage.schemaFile, Storage.tableFile] at hfiles
  set st' := (storageCreate st table colDefs).2
  have hschema : ∀ place, st'.files (schemaPath place table) =
      if place = st.schemaPlace table then some text else st.files (schemaPath place table) := by
    intro place
    rw [hfiles, Function.update_of_ne (schemaPath_ne_tablePath place _ table table)]
    by_cases heq : place = st.schemaPlace table
    · rw [if_pos heq, heq]
      exact Function.update_self ..
    · rw [if_neg heq, Function.update_of_ne]
      exact fun h => heq (schemaPath_inj h)
  have htable : ∀ place, st'.files (tablePath place table) =
      if place = st.tablePlace table then some ((st.content table).getD [])
      else st.files (tablePath place table) := by
    intro place
    rw [hfiles]
    by_cases heq : place = st.tablePlace table
    · rw [if_pos heq, heq]
      exact Function.update_self ..
    · rw [if_neg heq, Function.update_of_ne fun h => heq (tablePath_inj h), Function.update_of_ne]
      exact (schemaPath_ne_tablePath _ _ table table).symm
  have hlegacy := @schemaPlace_eq_legacy st table
  have hlegacy' := @tablePlace_eq_legacy st table
  have hsp : st'.schemaPlace table = st.schemaPlace table := by
    refine place_ext ?_
    rw [schemaPlace_eq_legacy, hschema, hschema]
    cases hcase : st.schemaPlace table with
    | nested => simp
    | legacy => simp [(hlegacy.mp hcase).1]
  have htp : st'.tablePlace table = st.tablePlace table := by
    refine place_ext ?_
    rw [tablePlace_eq_legacy, htable, htable, hschema]
    cases hcase : st.tablePlace table with
    | nested => simp
    | legacy =>
      have hother := hlegacy'.mp hcase
      simp [hplace hcase, hother.1, hother.2.1]
  refine ⟨hok, ?_, ?_⟩
  · rw [Storage.tableSchema, Storage.schemaFile, hsp, loadSchema, hschema, if_pos rfl,
      Option.bind_some]
  · rw [Storage.content, Storage.tableFile, htp, htable, if_pos rfl]

/-- A CREATE whose columns are refused leaves no schema, unless there is one in the other
directory. -/
theorem storageCreate_refused (hs : st.Sound) (hplain : PlainName table) {colDefs : List CStr}
    (hargs : table ≠ [] ∧ colDefs ≠ []) (htext : schemaText (fun _ => false) colDefs 0 [] = none)
    (hone : st.files (schemaPath .nested table) = none ∨ st.files (schemaPath .legacy table) = none) :
    (storageCreate st table colDefs).1 = .error .failed ∧
      (storageCreate st table colDefs).2.tableSchema table = none := by
  have hview := (storageCreate_view hplain.1 hs.wf (hs.coherent table hplain) hargs).2
  rw [htext] at hview
  obtain ⟨hfailed, hfiles⟩ := hview
  rw [Storage.schemaFile] at hfiles
  refine ⟨hfailed, ?_⟩
  have hnone : ∀ place, (storageCreate st table colDefs).2.files (schemaPath place table) = none := by
    intro place
    rw [hfiles]
    by_cases heq : place = st.schemaPlace table
    · rw [heq]
      exact Function.update_self ..
    · rw [Function.update_of_ne fun h => heq (schemaPath_inj h)]
      have hlegacy := @schemaPlace_eq_legacy st table
      cases place with
      | nested =>
        cases hcase : st.schemaPlace table with
        | nested => exact absurd hcase.symm heq
        | legacy => exact (hlegacy.mp hcase).1
      | legacy =>
        cases hcase : st.schemaPlace table with
        | nested =>
          rw [hcase] at hlegacy
          rcases hone with hnested | hnone
          · by_contra hthere
            exact absurd (hlegacy.mpr ⟨hnested, hthere⟩) (by simp)
          · exact hnone
        | legacy => exact absurd hcase.symm heq
  rw [Storage.tableSchema, Storage.schemaFile, loadSchema, hnone, Option.bind_none]

/-- Filling the index changes no file. -/
theorem ensureIndex_table (hs : st.Sound) (hplain : PlainName table) :
    (ensureIndex st table).Sound ∧ (ensureIndex st table).files = st.files := by
  obtain ⟨hfiles, hc⟩ := ensureIndex_view hplain.1 (hs.coherent table hplain)
  exact ⟨hs.of_touches hplain (touches_ensureIndex hs.wf hplain.1) hc, hfiles⟩

/-- A SELECT changes no file, and its result is a question to the table's file. -/
theorem selectBy_table [CDouble] {find : Storage → Path → List ColDef → Option (List Row)}
    (hfind : ∀ paths, find { st with pathCache := paths } = find st) (sql : ParsedSQL)
    (hs : st.Sound) (hplain : PlainName table) :
    (selectBy find st table sql).2.Sound ∧ (selectBy find st table sql).2.files = st.files ∧
      (selectBy find st table sql).1 = if table = [] then none else
        (st.tableSchema table).bind fun schema =>
          (find st (st.tableFile table) schema).bind (buildRowset sql schema) := by
  by_cases hne : table = []
  · rw [selectBy, openSelect, if_pos hne, if_pos hne]
    exact ⟨hs, rfl, rfl⟩
  · have htouch := @touches_selectBy st table _ find sql hplain.1
    obtain ⟨paths, hselect, hc⟩ := selectBy_view hfind sql hplain.1 hne (hs.coherent table hplain)
    rw [hselect] at htouch ⊢
    rw [if_neg hne]
    exact ⟨hs.of_touches hplain htouch hc, rfl, rfl⟩

end Sound

end MiniSql

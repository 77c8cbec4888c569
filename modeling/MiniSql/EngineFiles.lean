import MiniSql.Engine
import MiniSql.Storage.Foreign
import MiniSql.Storage.Paths

/-!
# What the engine does to files

A SELECT changes nothing but caches. Behind a statement that writes the dictionary the engine
reads it again for the trie; that changes nothing but what is known about paths. No statement
writes a foreign file, and where a statement writes or fills the trie it does not read one
either.

## Main results

* `executeSelect_reads` — the storage after a SELECT.
* `executeSelect_scan` — the answer of a SELECT that reads the whole table.
* `dictionaryTrieRebuild_storage`, `refreshAfterWrite_storage` — the storage after the trie has
  been filled.
* `executeStatement_setFile`, `engineInit_setFile` — statements and foreign files.
* `engineInit_storage` — the storage of a process that has just started.
-/

namespace MiniSql
open CText

/-! ## Reading -/

section Reading

variable {st : Storage} {table other : CStr}

/-- The path cache is correct about a table as long as its entry stays. -/
theorem Storage.Coherent.otherPaths (hc : st.Coherent other) {cache : Slots CStr TablePaths}
    (h : cache.find other = st.pathCache.find other) :
    ({ st with pathCache := cache } : Storage).Coherent other := by
  refine hc.pathCache fun e he => ?_
  rw [h] at he
  exact ⟨hc.schemaPlace e he, hc.tablePlace e he⟩

theorem coherent_buildSchemaPath (hshort : table.length ≤ nameMax) (hc : st.Coherent other) :
    (buildSchemaPath st table).2.Coherent other := by
  by_cases hne : other = table
  · subst hne
    obtain ⟨cache, h, hc'⟩ := buildSchemaPath_view hshort hc
    rw [buildSchemaPath, h]
    exact hc'
  · have htouch := (@touches_buildSchemaPath st.pathExists st table hshort).paths other hne
    obtain ⟨cache, h⟩ := buildSchemaPathWith_snd st.pathExists st table
    rw [buildSchemaPath, h]
    rw [h] at htouch
    exact hc.otherPaths htouch

theorem coherent_buildTablePath (hshort : table.length ≤ nameMax) (hc : st.Coherent other) :
    (buildTablePath st table).2.Coherent other := by
  by_cases hne : other = table
  · subst hne
    obtain ⟨cache, h, hc'⟩ := buildTablePath_view hshort hc
    rw [buildTablePath, h]
    exact hc'
  · have htouch := (@touches_buildTablePath st.pathExists st table hshort).paths other hne
    obtain ⟨cache, h⟩ := buildTablePathWith_snd st.pathExists st table
    rw [buildTablePath, h]
    rw [h] at htouch
    exact hc.otherPaths htouch

theorem coherent_openTable (hshort : table.length ≤ nameMax) (hc : st.Coherent other) :
    (openTable st table).2.Coherent other := by
  have hs := coherent_buildSchemaPath hshort hc
  unfold openTable
  rcases hbs : buildSchemaPath st table with ⟨_ | sp, st₁⟩ <;> rw [hbs] at hs
  · exact hs
  have ht := coherent_buildTablePath hshort hs
  dsimp only at ht ⊢
  rcases hbt : buildTablePath st₁ table with ⟨_ | path, st₂⟩ <;> rw [hbt] at ht
  · exact ht
  have hg := ht.schemaCacheGet sp
  dsimp only at hg ⊢
  rcases hcg : schemaCacheGet st₂ sp with ⟨_ | schema, st₃⟩ <;> rw [hcg] at hg <;> exact hg

theorem openTable_files (st : Storage) (table : CStr) : (openTable st table).2.files = st.files := by
  unfold openTable buildSchemaPath
  obtain ⟨paths, hs⟩ := buildSchemaPathWith_snd st.pathExists st table
  rcases hres : buildSchemaPathWith st.pathExists st table with ⟨_ | sp, st₁⟩ <;>
    rw [hres] at hs <;> subst hs
  · rfl
  dsimp only
  unfold buildTablePath
  obtain ⟨paths', ht⟩ := buildTablePathWith_snd
    ({ st with pathCache := paths } : Storage).pathExists { st with pathCache := paths } table
  rcases hres' : buildTablePathWith ({ st with pathCache := paths } : Storage).pathExists
    { st with pathCache := paths } table with ⟨_ | path, st₂⟩ <;> rw [hres'] at ht <;> subst ht
  · rfl
  dsimp only
  obtain ⟨schemas, hg⟩ := schemaCacheGet_snd { st with pathCache := paths' } sp
  rcases hget : schemaCacheGet { st with pathCache := paths' } sp with ⟨_ | schema, st₃⟩ <;>
    rw [hget] at hg <;> subst hg <;> rfl

theorem coherent_ensureIndex (hshort : table.length ≤ nameMax) (hc : st.Coherent other) :
    (ensureIndex st table).files = st.files ∧ (ensureIndex st table).Coherent other := by
  have hopen := coherent_openTable hshort hc
  have hfiles := openTable_files st table
  rw [ensureIndex_eq]
  split
  · exact ⟨rfl, hc⟩
  rcases hot : openTable st table with ⟨_ | ⟨path, schema⟩, st₁⟩ <;> rw [hot] at hopen hfiles
  · exact ⟨hfiles, hopen⟩
  dsimp only at hopen hfiles ⊢
  split
  · obtain ⟨rebuilt, hmark⟩ := markRebuilt_snd st₁ table
    rw [hmark]
    exact ⟨hfiles, hopen.index _ _ rebuilt⟩
  · rename_i idCol _
    obtain ⟨registry, hreg⟩ := indexRegistryGetOrCreate_snd st₁ table
    rcases hget : indexRegistryGetOrCreate st₁ table with ⟨_ | tree, st₂⟩ <;>
      rw [hget] at hreg <;> subst hreg <;> dsimp only
    · exact ⟨hfiles, hopen.index _ registry _⟩
    · obtain ⟨cache, registry', rebuilt, hfill⟩ := fillIndex_snd
        { st₁ with registry := registry } table path schema idCol tree
      rw [hfill]
      exact ⟨hfiles, hopen.index cache registry' rebuilt⟩

/-- No file is changed, and sound caches stay so. -/
structure OnlyReads (st st' : Storage) : Prop where
  files : st'.files = st.files
  sound : st.Sound → st'.Sound

theorem OnlyReads.refl (st : Storage) : OnlyReads st st := ⟨rfl, id⟩

theorem OnlyReads.trans {st' st'' : Storage} (h : OnlyReads st st') (h' : OnlyReads st' st'') :
    OnlyReads st st'' :=
  ⟨h'.files.trans h.files, fun hs => h'.sound (h.sound hs)⟩

/-- Filling the index reads, whatever the table is called. -/
theorem onlyReads_ensureIndex (hshort : table.length ≤ nameMax) :
    OnlyReads st (ensureIndex st table) where
  files := (sameAnswers_ensureIndex st table).files
  sound hs := ⟨(touches_ensureIndex hs.wf hshort).wf hs.wf,
    fun other hother => (coherent_ensureIndex hshort (hs.coherent other hother)).2⟩

end Reading

variable [CDouble]

theorem selectBy_snd (find : Storage → Path → List ColDef → Option (List Row)) (st : Storage)
    (table : CStr) (sql : ParsedSQL) :
    ∃ paths, (selectBy find st table sql).2 = { st with pathCache := paths } := by
  obtain ⟨paths, h⟩ := openSelect_snd st table
  unfold selectBy
  rcases hres : openSelect st table with ⟨_ | ⟨path, schema⟩, st₁⟩ <;> rw [hres] at h <;> subst h <;>
    exact ⟨_, rfl⟩

/-- So does asking for rows. -/
theorem onlyReads_selectBy {st : Storage} {table : CStr}
    (find : Storage → Path → List ColDef → Option (List Row)) (sql : ParsedSQL)
    (hshort : table.length ≤ nameMax) : OnlyReads st (selectBy find st table sql).2 := by
  obtain ⟨paths, hsnd⟩ := selectBy_snd find st table sql
  refine ⟨by rw [hsnd], fun hs => ⟨(touches_selectBy find sql hshort).wf hs.wf, fun other hother => ?_⟩⟩
  have hc := hs.coherent other hother
  have hopen : (openSelect st table).2.Coherent other := by
    have hs' := coherent_buildSchemaPath hshort hc
    unfold openSelect
    split
    · exact hc
    rcases hbs : buildSchemaPath st table with ⟨_ | sp, st₁⟩ <;> rw [hbs] at hs'
    · exact hs'
    have ht := coherent_buildTablePath hshort hs'
    dsimp only at ht ⊢
    rcases hbt : buildTablePath st₁ table with ⟨_ | path, st₂⟩ <;> rw [hbt] at ht <;> exact ht
  unfold selectBy
  rcases hos : openSelect st table with ⟨_ | ⟨path, schema⟩, st₁⟩ <;> rw [hos] at hopen <;>
    exact hopen

section Select

variable {e : Engine} {st : Storage} {sql : ParsedSQL}

theorem onlyReads_selectRange (hshort : sql.table.length ≤ nameMax) (clause : WhereClause) :
    OnlyReads st (selectRange st sql clause).2 := by
  unfold selectRange
  split
  · split
    · exact .refl st
    · exact onlyReads_selectBy _ sql hshort
  · exact .refl st

theorem onlyReads_selectPoint (hshort : sql.table.length ≤ nameMax) (clause : WhereClause) :
    OnlyReads st (selectPoint st sql clause).2 := by
  unfold selectPoint
  split
  · exact onlyReads_selectBy _ sql hshort
  · exact .refl st

theorem onlyReads_selectPrefix (hshort : sql.table.length ≤ nameMax) (pre : CStr) :
    OnlyReads st (selectPrefix e st sql pre).2 := by
  unfold selectPrefix
  dsimp only
  split
  · exact .refl st
  · exact onlyReads_selectBy _ sql hshort

theorem selectUnindexed_reads (hshort : sql.table.length ≤ nameMax) :
    ∃ st', (selectUnindexed e st sql).2 = { e with storage := st' } ∧ OnlyReads st st' := by
  have hscan : ∀ st₁ : Storage, OnlyReads st st₁ →
      ∃ st', (scanOutcome e (storageSelectResult st₁ sql.table sql)).2 = { e with storage := st' } ∧
        OnlyReads st st' := by
    intro st₁ hst₁
    have hscan := hst₁.trans
      (onlyReads_selectBy (fun st path schema => scanRows st path schema sql) sql hshort)
    unfold storageSelectResult
    rcases hres : selectBy (fun st path schema => scanRows st path schema sql) st₁ sql.table sql with
      ⟨_ | rs, st₂⟩ <;> rw [hres] at hscan <;> exact ⟨st₂, rfl, hscan⟩
  unfold selectUnindexed
  cases shouldUseTriePrefix sql with
  | none => exact hscan st (.refl st)
  | some pre =>
    dsimp only
    by_cases hready : e.trieReady = true
    · rw [if_pos hready]
      have hbegins := @onlyReads_selectPrefix _ e st sql hshort pre
      rcases hres : selectPrefix e st sql pre with ⟨_ | rs, st₁⟩ <;> rw [hres] at hbegins
      · exact hscan st₁ hbegins
      · exact ⟨st₁, rfl, hbegins⟩
    · rw [if_neg hready]
      exact hscan st (.refl st)

/-- **A SELECT changes nothing but caches, and they stay sound if they were.** -/
theorem executeSelect_reads (hshort : sql.table.length ≤ nameMax) :
    ∃ st, (executeSelect e sql).2 = { e with storage := st } ∧ OnlyReads e.storage st := by
  have hindex := @onlyReads_ensureIndex e.storage sql.table hshort
  have hrest : ∀ st : Storage, OnlyReads e.storage st →
      ∃ st', (selectUnindexed e st sql).2 = { e with storage := st' } ∧ OnlyReads e.storage st' := by
    intro st hst
    obtain ⟨st', h, hreads⟩ := @selectUnindexed_reads _ e st sql hshort
    exact ⟨st', h, hst.trans hreads⟩
  unfold executeSelect
  dsimp only
  cases shouldUseIdRange sql with
  | some clause =>
    have hrange := hindex.trans (onlyReads_selectRange hshort clause)
    dsimp only
    rcases hres : selectRange (ensureIndex e.storage sql.table) sql clause with ⟨_ | _ | rs, st⟩ <;>
      rw [hres] at hrange
    · exact ⟨st, rfl, hrange⟩
    · exact hrest st hrange
    · exact ⟨st, rfl, hrange⟩
  | none =>
    cases shouldUseIdIndex sql with
    | none => exact hrest _ hindex
    | some clause =>
      have hpoint := hindex.trans (onlyReads_selectPoint hshort clause)
      dsimp only
      rcases hres : selectPoint (ensureIndex e.storage sql.table) sql clause with ⟨_ | rs, st⟩ <;>
        rw [hres] at hpoint
      · exact hrest st hpoint
      · exact ⟨st, rfl, hpoint⟩

/-- The storage after a SELECT. -/
theorem executeSelect_sound (hs : e.storage.Sound) (hshort : sql.table.length ≤ nameMax) :
    ∃ st, (executeSelect e sql).2 = { e with storage := st } ∧ st.Sound ∧
      st.files = e.storage.files := by
  obtain ⟨st, hselect, hreads⟩ := executeSelect_reads hshort
  exact ⟨st, hselect, hreads.sound hs, hreads.files⟩

/-- The answer where neither an index nor the trie is of use. -/
def scanAnswer (st : Storage) (sql : ParsedSQL) : Outcome :=
  match (st.tableSchema sql.table).bind fun schema =>
    (scanRows st (st.tableFile sql.table) schema sql).bind (buildRowset sql schema) with
  | some rs => .rows .scan rs
  | none => .status false

theorem scanAnswer_rows {rs : RowSet} (h : ((st.tableSchema sql.table).bind fun schema =>
    (scanRows st (st.tableFile sql.table) schema sql).bind (buildRowset sql schema)) = some rs) :
    scanAnswer st sql = .rows .scan rs := by
  rw [scanAnswer, h]

theorem scanAnswer_congr {st' : Storage} (h : SameTable sql.table st st') :
    scanAnswer st' sql = scanAnswer st sql := by
  have hrows : ∀ schema, scanRows st' (st'.tableFile sql.table) schema sql =
      scanRows st (st.tableFile sql.table) schema sql := by
    intro schema
    have hfile : st'.files (st'.tableFile sql.table) = st.files (st.tableFile sql.table) := h.content
    rw [scanRows, hfile, scanRows]
  unfold scanAnswer
  simp only [hrows, h.tableSchema]

/-- Reading the whole table. -/
theorem selectUnindexed_scan (htrie : shouldUseTriePrefix sql = none)
    (hshort : sql.table.length ≤ nameMax) (hne : sql.table ≠ []) (hc : st.Coherent sql.table) :
    (selectUnindexed e st sql).1 = scanAnswer st sql := by
  obtain ⟨paths, hselect, -⟩ := @selectBy_view st sql.table _
    (fun st path schema => scanRows st path schema sql) (fun _ => rfl) sql hshort hne hc
  unfold selectUnindexed scanAnswer storageSelectResult
  rw [htrie]
  dsimp only
  rw [hselect]
  cases (st.tableSchema sql.table).bind fun schema =>
    (scanRows st (st.tableFile sql.table) schema sql).bind (buildRowset sql schema) <;> rfl

/-- **What a SELECT answers that can use neither an index nor the trie.** -/
theorem executeSelect_scan (hrange : shouldUseIdRange sql = none) (hid : shouldUseIdIndex sql = none)
    (htrie : shouldUseTriePrefix sql = none) (hshort : sql.table.length ≤ nameMax)
    (hne : sql.table ≠ []) (hc : e.storage.Coherent sql.table) :
    (executeSelect e sql).1 = scanAnswer e.storage sql := by
  obtain ⟨hfiles, hc'⟩ := ensureIndex_view hshort hc
  unfold executeSelect
  rw [hrange, hid]
  dsimp only
  rw [selectUnindexed_scan htrie hshort hne hc']
  exact scanAnswer_congr (sameTable_of_own fun path _ => by rw [hfiles])

end Select

/-! ## Filling the trie -/

section Trie

variable {e : Engine} {table other : CStr}

/-- Filling the trie leaves everything but the path cache, and the caches stay coherent. -/
theorem dictionaryTrieRebuild_storage (hshort : table.length ≤ nameMax)
    (hc : e.storage.Coherent table) :
    (∃ paths, (dictionaryTrieRebuild e).storage = { e.storage with pathCache := paths }) ∧
      (dictionaryTrieRebuild e).storage.Coherent table := by
  have hdict : "dictionary".toList.length ≤ nameMax := by decide
  have hselect : (∃ paths, (storageSelectResult e.storage "dictionary".toList dictionarySelect).2 =
        { e.storage with pathCache := paths }) ∧
      (storageSelectResult e.storage "dictionary".toList dictionarySelect).2.Coherent table := by
    obtain ⟨paths, hsnd⟩ := selectBy_snd (fun st path schema => scanRows st path schema dictionarySelect)
      e.storage "dictionary".toList dictionarySelect
    refine ⟨⟨paths, hsnd⟩, ?_⟩
    by_cases heq : table = "dictionary".toList
    · subst heq
      obtain ⟨paths', h, hc'⟩ := @selectBy_view e.storage "dictionary".toList _
        (fun st path schema => scanRows st path schema dictionarySelect) (fun _ => rfl)
        dictionarySelect hdict (by decide) hc
      rw [storageSelectResult, h]
      exact hc'
    · have htouch := (@touches_selectBy e.storage "dictionary".toList _
        (fun st path schema => scanRows st path schema dictionarySelect) dictionarySelect hdict).paths
        table heq
      rw [hsnd] at htouch
      rw [storageSelectResult, hsnd]
      refine hc.pathCache fun e he => ?_
      rw [htouch] at he
      exact ⟨hc.schemaPlace e he, hc.tablePlace e he⟩
  unfold dictionaryTrieRebuild
  split
  · exact ⟨⟨_, rfl⟩, hc⟩
  rcases hres : storageSelectResult e.storage "dictionary".toList dictionarySelect with
    ⟨_ | rs, st⟩ <;> rw [hres] at hselect
  · exact hselect
  · dsimp only
    cases insertWords (rs.rows.map fun row => row.head?.getD []) 0 trieCreate <;> exact hselect

theorem refreshAfterWrite_storage (hshort : table.length ≤ nameMax) (hc : e.storage.Coherent table)
    (other : CStr) (status : Status) :
    (∃ paths, (refreshAfterWrite e other status).storage = { e.storage with pathCache := paths }) ∧
      (refreshAfterWrite e other status).storage.Coherent table := by
  unfold refreshAfterWrite
  split
  · exact dictionaryTrieRebuild_storage hshort hc
  · exact ⟨⟨_, rfl⟩, hc⟩

end Trie

/-! ## Foreign files -/

/-- The engine on a storage with another file. -/
def Engine.setFile (e : Engine) (path : Path) (content : Option CStr) : Engine :=
  { e with storage := e.storage.setFile path content }

section Foreign

variable {b : Path} (hb : Foreign b) (x : Option CStr) (e : Engine)
include hb

theorem dictionaryTrieRebuild_setFile :
    dictionaryTrieRebuild (e.setFile b x) = (dictionaryTrieRebuild e).setFile b x := by
  have hexists : dictionarySchemaExists (e.setFile b x).storage = dictionarySchemaExists e.storage := by
    unfold dictionarySchemaExists Engine.setFile
    rw [(pathExists_setFile hb x e.storage .nested _).1, (pathExists_setFile hb x e.storage .legacy _).1]
  unfold dictionaryTrieRebuild
  rw [hexists]
  split
  · rfl
  have hselect := storageSelectResult_setFile hb x e.storage "dictionary".toList dictionarySelect
  rw [Engine.setFile, hselect]
  rcases storageSelectResult e.storage "dictionary".toList dictionarySelect with ⟨_ | rs, st⟩
  · rfl
  · dsimp only
    cases insertWords (rs.rows.map fun row => row.head?.getD []) 0 trieCreate <;> rfl

theorem executeWrite_setFile (table : CStr) (result : Status × Storage) :
    executeWrite (e.setFile b x) table (result.1, result.2.setFile b x) =
      ((executeWrite e table result).1, (executeWrite e table result).2.setFile b x) := by
  unfold executeWrite refreshAfterWrite
  split
  · exact congrArg (Prod.mk _) (dictionaryTrieRebuild_setFile hb x { e with storage := result.2 })
  · rfl

/-- A statement that writes does not look at a foreign file. -/
theorem executeStatement_setFile {sql : ParsedSQL} (hsql : sql.type ≠ .select) :
    executeStatement (e.setFile b x) sql =
      ((executeStatement e sql).1, (executeStatement e sql).2.setFile b x) := by
  unfold executeStatement
  cases htype : sql.type with
  | select => exact absurd htype hsql
  | create =>
    dsimp only
    rw [Engine.setFile, storageCreate_setFile hb]
    exact executeWrite_setFile hb x e _ _
  | insert =>
    dsimp only
    rw [Engine.setFile, storageInsert_setFile hb]
    exact executeWrite_setFile hb x e _ _
  | delete =>
    dsimp only
    rw [Engine.setFile, storageDelete_setFile hb]
    exact executeWrite_setFile hb x e _ _
  | update =>
    dsimp only
    rw [Engine.setFile, storageUpdate_setFile hb]
    exact executeWrite_setFile hb x e _ _
  | unknown => rfl

omit e in
theorem engineInit_setFile (files : Path → Option CStr) :
    engineInit (Function.update files b x) = (engineInit files).setFile b x := by
  have hstart : (⟨.start (Function.update files b x), trieCreate, false⟩ : Engine) =
      Engine.setFile ⟨.start files, trieCreate, false⟩ b x := rfl
  have hexists : dictionarySchemaExists (Storage.start (Function.update files b x)) =
      dictionarySchemaExists (Storage.start files) := by
    have hpath := fun place name => (pathExists_setFile hb x (Storage.start files) place name).1
    unfold dictionarySchemaExists
    rw [← hpath, ← hpath]
    rfl
  unfold engineInit
  dsimp only
  rw [hexists, hstart]
  split
  · exact dictionaryTrieRebuild_setFile hb x _
  · rw [executeStatement_setFile hb x _ (by decide)]

end Foreign

/-! ## The start -/

omit [CDouble] in
theorem coherent_start (files : Path → Option CStr) (table : CStr) :
    (Storage.start files).Coherent table :=
  ⟨by simp [Storage.start], by simp [Storage.start], by simp [Storage.start],
    by simp [Storage.Lost, Storage.start]⟩

omit [CDouble] in
/-- A new table in a process that has just started. -/
theorem storageCreate_start (files : Path → Option CStr) {name : CStr}
    (hname : name.length ≤ nameMax) (colDefs : List CStr) :
    (∃ files' paths, (storageCreate (.start files) name colDefs).2 =
        { Storage.start files' with pathCache := paths }) ∧
      ∀ table, (storageCreate (.start files) name colDefs).2.Coherent table := by
  have htouch := (touches_storageCreate (wf_start files) hname colDefs).paths
  by_cases hargs : name ≠ [] ∧ colDefs ≠ []
  · have hargs' : ¬ (name = [] ∨ colDefs = [] ∨ CreateFaults.none.mkdir = true) := by
      simp [hargs.1, hargs.2, CreateFaults.none]
    have hself := (storageCreate_view hname (wf_start files) (coherent_start files name) hargs).1
    obtain ⟨paths, hpaths⟩ := createPaths_view hname (coherent_start files name)
    have hshape : ∃ files' paths, (storageCreate (.start files) name colDefs).2 =
        { Storage.start files' with pathCache := paths } := by
      unfold storageCreate storageCreateWith
      rw [if_neg hargs', hpaths]
      dsimp only
      rw [writeSchema_none]
      cases schemaText (fun _ => false) colDefs 0 [] <;> exact ⟨_, _, rfl⟩
    refine ⟨hshape, fun table => ?_⟩
    by_cases heq : table = name
    · exact heq ▸ hself
    · have hnone := htouch table heq
      obtain ⟨files', paths', h⟩ := hshape
      rw [h] at hnone ⊢
      exact coherent_of_forgotten hnone (by simp [Storage.start]) (by simp [Storage.Lost, Storage.start])
  · have hbad : name = [] ∨ colDefs = [] ∨ CreateFaults.none.mkdir = true := by tauto
    rw [storageCreate, storageCreateWith, if_pos hbad]
    exact ⟨⟨files, [], rfl⟩, coherent_start files⟩

/-- **After `engine_init` nothing but paths is cached.** -/
theorem engineInit_storage (files : Path → Option CStr) :
    ∃ files' paths, (engineInit files).storage = { Storage.start files' with pathCache := paths } ∧
      ∀ table : CStr, table.length ≤ nameMax → (engineInit files).storage.Coherent table := by
  unfold engineInit
  dsimp only
  split
  · obtain ⟨⟨paths, h⟩, -⟩ := @dictionaryTrieRebuild_storage _ ⟨.start files, trieCreate, false⟩ []
      (by decide) (coherent_start files [])
    exact ⟨files, paths, h, fun table hshort =>
      (dictionaryTrieRebuild_storage hshort (coherent_start files table)).2⟩
  · obtain ⟨⟨files', paths, hcreate⟩, hc⟩ := storageCreate_start files
      (show "dictionary".toList.length ≤ nameMax by decide) dictionaryCreate.colDefs
    set result := storageCreate (.start files) "dictionary".toList dictionaryCreate.colDefs with hresult
    have hwrite : (executeStatement ⟨.start files, trieCreate, false⟩ dictionaryCreate).2 =
        refreshAfterWrite ⟨result.2, trieCreate, false⟩ "dictionary".toList result.1 := rfl
    rw [hwrite]
    obtain ⟨⟨paths', h⟩, -⟩ := @refreshAfterWrite_storage _ ⟨result.2, trieCreate, false⟩ []
      (by decide) (hc []) "dictionary".toList result.1
    refine ⟨files', paths', ?_, fun table hshort =>
      (@refreshAfterWrite_storage _ ⟨result.2, trieCreate, false⟩ table hshort (hc table) _ _).2⟩
    rw [h, hcreate]

end MiniSql

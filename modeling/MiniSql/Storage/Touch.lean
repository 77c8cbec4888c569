import MiniSql.Storage.Create
import MiniSql.Storage.Insert
import MiniSql.Storage.Rewrite
import MiniSql.Storage.Select

/-!
# What a statement on one table leaves alone

A statement on a table works on the files of this table and on its entries in the caches. Only
the index registry is cleared for all tables, and the handle of another table may be closed to
make room.

## Main definitions

* `Storage.Wf` — the caches name every table once, and keep the paths of a table under its name.
* `Touches` — nothing but the table with the given name was touched.

## Main results

* `touches_storageInsert`, `touches_storageDelete`, `touches_storageUpdate`,
  `touches_storageCreate`, `touches_selectBy`, `touches_ensureIndex`.
-/

namespace MiniSql
open CText

/-- The caches name every table once, and keep the paths of a table under its name. -/
structure Storage.Wf (st : Storage) : Prop where
  own : ∀ name e, st.pathCache.find name = some e →
    (∀ p ∈ e.schema, p.2 = name) ∧ ∀ p ∈ e.table, p.2 = name
  paths : st.pathCache.keys.Nodup
  schemas : st.schemaCache.keys.Nodup

theorem wf_start (files : Path → Option CStr) : (Storage.start files).Wf :=
  ⟨by simp [Storage.start], List.nodup_nil, List.nodup_nil⟩

/-- The files a statement on the table writes. -/
def OwnPath (table : CStr) (path : Path) : Prop :=
  ∃ place, path = schemaPath place table ∨ path = tablePath place table ∨ path = tempPath place table

/-- Nothing but the table was touched. -/
structure Touches (table : CStr) (st st' : Storage) : Prop where
  files : ∀ path, ¬ OwnPath table path → st'.files path = st.files path
  paths : ∀ name, name ≠ table → st'.pathCache.find name = st.pathCache.find name
  schemas : ∀ path, ¬ OwnPath table path → st'.schemaCache.find path = st.schemaCache.find path
  handles : ∀ path, ¬ OwnPath table path → path ∈ st'.appendFp → path ∈ st.appendFp
  metas : ∀ name, name ≠ table → st'.metaCache.find name = st.metaCache.find name
  trees : ∀ name, name ≠ table →
    st'.registry.find name = st.registry.find name ∨ st'.registry.find name = none
  rebuilt : ∀ name, name ≠ table → (name ∈ st'.indexRebuilt ↔ name ∈ st.indexRebuilt)
  wf : st.Wf → st'.Wf

theorem Touches.refl (table : CStr) (st : Storage) : Touches table st st :=
  ⟨fun _ _ => rfl, fun _ _ => rfl, fun _ _ => rfl, fun _ _ => id, fun _ _ => rfl,
    fun _ _ => .inl rfl, fun _ _ => .rfl, id⟩

theorem Touches.trans {table : CStr} {st st' st'' : Storage} (h : Touches table st st')
    (h' : Touches table st' st'') : Touches table st st'' where
  files path hp := (h'.files path hp).trans (h.files path hp)
  paths name hn := (h'.paths name hn).trans (h.paths name hn)
  schemas path hp := (h'.schemas path hp).trans (h.schemas path hp)
  handles path hp hmem := h.handles path hp (h'.handles path hp hmem)
  metas name hn := (h'.metas name hn).trans (h.metas name hn)
  trees name hn := by
    rcases h'.trees name hn with heq | hnone
    · rw [heq]
      exact h.trees name hn
    · exact .inr hnone
  rebuilt name hn := (h'.rebuilt name hn).trans (h.rebuilt name hn)
  wf := h'.wf ∘ h.wf

theorem ownPath_schema (place : Place) (table : CStr) : OwnPath table (schemaPath place table) :=
  ⟨place, .inl rfl⟩

theorem ownPath_table (place : Place) (table : CStr) : OwnPath table (tablePath place table) :=
  ⟨place, .inr (.inl rfl)⟩

theorem ownPath_temp (place : Place) (table : CStr) : OwnPath table (tempPath place table) :=
  ⟨place, .inr (.inr rfl)⟩

/-! ## Single changes -/

theorem touches_setFile {table : CStr} (st : Storage) {path : Path} (h : OwnPath table path)
    (content : Option CStr) : Touches table st (st.setFile path content) where
  files p hp := by
    rw [Storage.setFile_files, Function.update_of_ne]
    rintro rfl
    exact hp h
  paths _ _ := rfl
  schemas _ _ := rfl
  handles _ _ := id
  metas _ _ := rfl
  trees _ _ := .inl rfl
  rebuilt _ _ := .rfl
  wf hwf := ⟨hwf.own, hwf.paths, hwf.schemas⟩

theorem touches_metaCache {table : CStr} (st : Storage) {cache : Slots CStr Meta}
    (h : ∀ name, name ≠ table → cache.find name = st.metaCache.find name) :
    Touches table st { st with metaCache := cache } :=
  ⟨fun _ _ => rfl, fun _ _ => rfl, fun _ _ => rfl, fun _ _ => id, h, fun _ _ => .inl rfl,
    fun _ _ => .rfl, fun hwf => ⟨hwf.own, hwf.paths, hwf.schemas⟩⟩

theorem touches_registry {table : CStr} (st : Storage) {registry : Slots CStr BPTree}
    (h : ∀ name, name ≠ table →
      registry.find name = st.registry.find name ∨ registry.find name = none) :
    Touches table st { st with registry := registry } :=
  ⟨fun _ _ => rfl, fun _ _ => rfl, fun _ _ => rfl, fun _ _ => id, fun _ _ => rfl, h,
    fun _ _ => .rfl, fun hwf => ⟨hwf.own, hwf.paths, hwf.schemas⟩⟩

theorem touches_appendFp {table : CStr} (st : Storage) {open' : List Path}
    (h : ∀ path, ¬ OwnPath table path → path ∈ open' → path ∈ st.appendFp) :
    Touches table st { st with appendFp := open' } :=
  ⟨fun _ _ => rfl, fun _ _ => rfl, fun _ _ => rfl, h, fun _ _ => rfl, fun _ _ => .inl rfl,
    fun _ _ => .rfl, fun hwf => ⟨hwf.own, hwf.paths, hwf.schemas⟩⟩

/-- Putting something into the path cache entry of the table. -/
theorem touches_pathCache {table : CStr} (st : Storage) {cache : Slots CStr TablePaths}
    (hother : ∀ name, name ≠ table → cache.find name = st.pathCache.find name)
    (hwf : st.Wf → cache.keys.Nodup ∧ ∀ e, cache.find table = some e →
      (∀ p ∈ e.schema, p.2 = table) ∧ ∀ p ∈ e.table, p.2 = table) :
    Touches table st { st with pathCache := cache } where
  files _ _ := rfl
  paths := hother
  schemas _ _ := rfl
  handles _ _ := id
  metas _ _ := rfl
  trees _ _ := .inl rfl
  rebuilt _ _ := .rfl
  wf h := by
    refine ⟨fun name e he => ?_, (hwf h).1, h.schemas⟩
    by_cases hname : name = table
    · subst hname
      exact (hwf h).2 e he
    · exact h.own name e ((hother name hname).symm.trans he)

theorem touches_schemaCache {table : CStr} (st : Storage) {cache : Slots Path (List ColDef)}
    (hother : ∀ path, ¬ OwnPath table path → cache.find path = st.schemaCache.find path)
    (hwf : st.Wf → cache.keys.Nodup) : Touches table st { st with schemaCache := cache } :=
  ⟨fun _ _ => rfl, fun _ _ => rfl, hother, fun _ _ => id, fun _ _ => rfl, fun _ _ => .inl rfl,
    fun _ _ => .rfl, fun h => ⟨h.own, h.paths, hwf h⟩⟩

theorem touches_rebuilt {table : CStr} (st : Storage) {rebuilt : List CStr}
    (h : ∀ name, name ≠ table → (name ∈ rebuilt ↔ name ∈ st.indexRebuilt)) :
    Touches table st { st with indexRebuilt := rebuilt } :=
  ⟨fun _ _ => rfl, fun _ _ => rfl, fun _ _ => rfl, fun _ _ => id, fun _ _ => rfl,
    fun _ _ => .inl rfl, h, fun hwf => ⟨hwf.own, hwf.paths, hwf.schemas⟩⟩

/-! ## Looking up the paths -/

section Paths

variable {probe : Path → Bool} {st : Storage} {table : CStr}

/-- The path cache after an answer was put into the entry of a table. -/
def cacheAnswer (cache : Slots CStr TablePaths) (table : CStr) (answer : TablePaths)
    (update : TablePaths → TablePaths) : Slots CStr TablePaths :=
  match cache.find table with
  | none => cache.add metaCacheMax (table.take nameMax) answer
  | some _ => cache.modify table update

theorem touches_cacheAnswer (hshort : table.length ≤ nameMax) (answer : TablePaths)
    (update : TablePaths → TablePaths)
    (hanswer : (∀ p ∈ answer.schema, p.2 = table) ∧ ∀ p ∈ answer.table, p.2 = table)
    (hupdate : ∀ e, ((∀ p ∈ e.schema, p.2 = table) ∧ ∀ p ∈ e.table, p.2 = table) →
      (∀ p ∈ (update e).schema, p.2 = table) ∧ ∀ p ∈ (update e).table, p.2 = table) :
    Touches table st { st with pathCache := cacheAnswer st.pathCache table answer update } := by
  rw [cacheAnswer, List.take_of_length_le hshort]
  cases hfind : st.pathCache.find table with
  | none =>
    refine touches_pathCache st (fun name hn => Slots.find_add_of_ne _ hn) fun hwf => ⟨?_, ?_⟩
    · exact Slots.nodup_keys_add hwf.paths hfind
    · intro e he
      by_cases hroom : st.pathCache.length < metaCacheMax
      · rw [Slots.find_add_self _ hroom hfind] at he
        obtain rfl := Option.some.inj he
        exact hanswer
      · rw [Slots.add_of_full hroom, hfind] at he
        exact absurd he (by simp)
  | some e =>
    refine touches_pathCache st (fun name hn => Slots.find_modify_of_ne _ _ hn) fun hwf => ⟨?_, ?_⟩
    · rw [Slots.keys_modify]
      exact hwf.paths
    · intro e' he'
      rw [Slots.find_modify_self, hfind] at he'
      obtain rfl := Option.some.inj he'
      exact hupdate e (hwf.own table e hfind)

/-- A lookup answers from the cache, fails, or leaves its answer in the cache. -/
theorem buildSchemaPath_cases (probe : Path → Bool) (st : Storage) (table : CStr) :
    (buildSchemaPathWith probe st table).2 = st ∨ ∃ place,
      buildSchemaPathWith probe st table = (some (schemaPath place table), { st with
        pathCache := cacheAnswer st.pathCache table ⟨some (place, table), none⟩
          fun e => { e with schema := some (place, table) } }) := by
  unfold buildSchemaPathWith
  dsimp only
  split
  · exact .inl rfl
  · split
    · exact .inl rfl
    · exact .inr ⟨_, rfl⟩

theorem buildTablePath_cases (probe : Path → Bool) (st : Storage) (table : CStr) :
    (buildTablePathWith probe st table).2 = st ∨ ∃ place,
      buildTablePathWith probe st table = (some (tablePath place table), { st with
        pathCache := cacheAnswer st.pathCache table ⟨none, some (place, table)⟩
          fun e => { e with table := some (place, table) } }) := by
  unfold buildTablePathWith
  dsimp only
  split
  · exact .inl rfl
  · split
    · exact .inl rfl
    · exact .inr ⟨_, rfl⟩

theorem touches_buildSchemaPath (hshort : table.length ≤ nameMax) :
    Touches table st (buildSchemaPathWith probe st table).2 := by
  rcases buildSchemaPath_cases probe st table with h | ⟨place, h⟩
  · rw [h]
    exact .refl table st
  · rw [h]
    refine touches_cacheAnswer hshort _ _ ⟨?_, by simp⟩ fun e he => ⟨?_, he.2⟩
    all_goals
      rintro p ⟨rfl⟩
      rfl

theorem touches_buildTablePath (hshort : table.length ≤ nameMax) :
    Touches table st (buildTablePathWith probe st table).2 := by
  rcases buildTablePath_cases probe st table with h | ⟨place, h⟩
  · rw [h]
    exact .refl table st
  · rw [h]
    refine touches_cacheAnswer hshort _ _ ⟨by simp, ?_⟩ fun e he => ⟨he.1, ?_⟩
    all_goals
      rintro p ⟨rfl⟩
      rfl

/-- The path of the schema of a table is its own. -/
theorem buildSchemaPath_own (hwf : st.Wf) {path : Path}
    (h : (buildSchemaPathWith probe st table).1 = some path) : ∃ place, path = schemaPath place table := by
  unfold buildSchemaPathWith at h
  dsimp only at h
  split at h
  · rename_i place name hcached
    obtain ⟨e, he, hschema⟩ := Option.bind_eq_some_iff.mp hcached
    obtain rfl : name = table := (hwf.own table e he).1 (place, name) hschema
    exact ⟨place, (Option.some.inj h).symm⟩
  · split at h
    · exact absurd h (by simp)
    · exact ⟨_, (Option.some.inj h).symm⟩

theorem buildTablePath_own (hwf : st.Wf) {path : Path}
    (h : (buildTablePathWith probe st table).1 = some path) : ∃ place, path = tablePath place table := by
  unfold buildTablePathWith at h
  dsimp only at h
  split at h
  · rename_i place name hcached
    obtain ⟨e, he, htable⟩ := Option.bind_eq_some_iff.mp hcached
    obtain rfl : name = table := (hwf.own table e he).2 (place, name) htable
    exact ⟨place, (Option.some.inj h).symm⟩
  · split at h
    · exact absurd h (by simp)
    · exact ⟨_, (Option.some.inj h).symm⟩

end Paths

/-! ## Opening a table -/

section Open

variable {st : Storage} {table : CStr}

theorem touches_schemaCacheGet {path : Path} (hpath : OwnPath table path) :
    Touches table st (schemaCacheGet st path).2 := by
  unfold schemaCacheGet
  split
  · exact .refl table st
  · rename_i hnone
    split
    · exact .refl table st
    · refine touches_schemaCache st (fun p hp => Slots.find_add_of_ne _ ?_)
        fun hwf => Slots.nodup_keys_add hwf.schemas hnone
      rintro rfl
      exact hp hpath

/-- Opening a table touches nothing else, and finds the table's own file. -/
theorem touches_openTable (hwf : st.Wf) (hshort : table.length ≤ nameMax) :
    Touches table st (openTable st table).2 ∧ ∀ path schema,
      (openTable st table).1 = some (path, schema) → ∃ place, path = tablePath place table := by
  have hs := @touches_buildSchemaPath st.pathExists st table hshort
  have hsp := fun path => @buildSchemaPath_own st.pathExists st table hwf path
  unfold openTable buildSchemaPath
  rcases hbs : buildSchemaPathWith st.pathExists st table with ⟨_ | sp, st₁⟩ <;>
    rw [hbs] at hs hsp
  · exact ⟨hs, by simp⟩
  obtain ⟨ps, rfl⟩ := hsp sp rfl
  have ht := @touches_buildTablePath st₁.pathExists st₁ table hshort
  have htp := fun path => @buildTablePath_own st₁.pathExists st₁ table (hs.wf hwf) path
  dsimp only
  unfold buildTablePath
  rcases hbt : buildTablePathWith st₁.pathExists st₁ table with ⟨_ | path, st₂⟩ <;>
    rw [hbt] at ht htp
  · exact ⟨hs.trans ht, by simp⟩
  obtain ⟨pt, rfl⟩ := htp path rfl
  have hg := @touches_schemaCacheGet st₂ table _ (ownPath_schema ps table)
  dsimp only
  rcases hcg : schemaCacheGet st₂ (schemaPath ps table) with ⟨_ | schema, st₃⟩ <;> rw [hcg] at hg
  · exact ⟨(hs.trans ht).trans hg, by simp⟩
  · refine ⟨(hs.trans ht).trans hg, fun path schema h => ⟨pt, ?_⟩⟩
    exact (Prod.mk.inj (Option.some.inj h)).1.symm

theorem touches_openSelect (hshort : table.length ≤ nameMax) :
    Touches table st (openSelect st table).2 := by
  unfold openSelect buildSchemaPath
  split
  · exact .refl table st
  have hs := @touches_buildSchemaPath st.pathExists st table hshort
  rcases hbs : buildSchemaPathWith st.pathExists st table with ⟨_ | sp, st₁⟩ <;> rw [hbs] at hs
  · exact hs
  have ht := @touches_buildTablePath st₁.pathExists st₁ table hshort
  dsimp only
  unfold buildTablePath
  rcases hbt : buildTablePathWith st₁.pathExists st₁ table with ⟨_ | path, st₂⟩ <;> rw [hbt] at ht
  · exact hs.trans ht
  · exact hs.trans ht

theorem touches_selectBy [CDouble]
    (find : Storage → Path → List ColDef → Option (List Row)) (sql : ParsedSQL)
    (hshort : table.length ≤ nameMax) : Touches table st (selectBy find st table sql).2 := by
  have hopen := @touches_openSelect st table hshort
  unfold selectBy
  rcases hos : openSelect st table with ⟨_ | ⟨path, schema⟩, st₁⟩ <;> rw [hos] at hopen
  · exact hopen
  · exact hopen

end Open

/-! ## The index -/

section Index

variable {st : Storage} {table : CStr}

/-- `storage_ensure_index` opens the table as `storage_insert` does. -/
theorem ensureIndex_eq (st : Storage) (table : CStr) :
    ensureIndex st table =
      if table = [] ∨ table ∈ st.indexRebuilt then st
      else match openTable st table with
        | (none, st) => st
        | (some (path, schema), st) =>
          match findSchemaIndex schema "id".toList with
          | none => markRebuilt st table
          | some idCol =>
            match indexRegistryGetOrCreate st table with
            | (none, st) => st
            | (some tree, st) => fillIndex st table path schema idCol tree := by
  unfold ensureIndex openTable
  split
  · rfl
  rcases buildSchemaPath st table with ⟨_ | sp, st₁⟩
  · rfl
  dsimp only
  rcases buildTablePath st₁ table with ⟨_ | path, st₂⟩
  · rfl
  dsimp only
  rcases schemaCacheGet st₂ sp with ⟨_ | schema, st₃⟩ <;> rfl

theorem touches_markRebuilt (hshort : table.length ≤ nameMax) :
    Touches table st (markRebuilt st table) := by
  unfold markRebuilt
  rw [List.take_of_length_le hshort]
  split
  · exact touches_rebuilt st fun name hn => by simp [hn]
  · exact .refl table st

theorem touches_putMeta (hshort : table.length ≤ nameMax) (m : Meta) :
    Touches table st (putMeta st table m) := by
  unfold putMeta
  rw [List.take_of_length_le hshort]
  split
  · exact touches_metaCache st fun name hn => Slots.find_modify_of_ne _ _ hn
  · exact touches_metaCache st fun name hn => Slots.find_add_of_ne _ hn

theorem touches_invalidateMetaCache : Touches table st (invalidateMetaCache st table) :=
  touches_metaCache st fun _ hn => Slots.find_modify_of_ne _ _ hn

theorem touches_indexRegistryGetOrCreate :
    Touches table st (indexRegistryGetOrCreate st table).2 := by
  unfold indexRegistryGetOrCreate
  split
  · exact .refl table st
  · split
    · exact .refl table st
    · exact touches_registry st fun name hn => .inl (Slots.find_add_of_ne _ hn)

theorem touches_setTree (tree : BPTree) : Touches table st (setTree st table tree) :=
  touches_registry st fun _ hn => .inl (Slots.find_modify_of_ne _ _ hn)

theorem touches_fillIndex (hshort : table.length ≤ nameMax) (path : Path) (schema : List ColDef)
    (idCol : ℕ) (tree : BPTree) : Touches table st (fillIndex st table path schema idCol tree) := by
  have hfill : ∀ (tree : BPTree) (m : Meta),
      Touches table st (markRebuilt (putMeta (setTree st table tree) table m) table) :=
    fun tree m => ((touches_setTree tree).trans (touches_putMeta hshort m)).trans
      (touches_markRebuilt hshort)
  unfold fillIndex
  dsimp only
  split
  · exact hfill _ _
  · split
    · exact touches_markRebuilt hshort
    · exact hfill _ _

theorem touches_ensureIndex (hwf : st.Wf) (hshort : table.length ≤ nameMax) :
    Touches table st (ensureIndex st table) := by
  have hopen := (touches_openTable hwf hshort).1
  rw [ensureIndex_eq]
  split
  · exact .refl table st
  rcases hot : openTable st table with ⟨_ | ⟨path, schema⟩, st₁⟩ <;> rw [hot] at hopen
  · exact hopen
  refine hopen.trans ?_
  dsimp only
  split
  · exact touches_markRebuilt hshort
  · have hreg := @touches_indexRegistryGetOrCreate st₁ table
    rcases hget : indexRegistryGetOrCreate st₁ table with ⟨_ | tree, st₂⟩ <;> rw [hget] at hreg
    · exact hreg
    · exact hreg.trans (touches_fillIndex hshort _ _ _ _)

theorem touches_rebuildIndex (openFails : Bool) (path : Path) (idCol : Option ℕ) :
    Touches table st (rebuildIndexWith openFails st table path idCol) := by
  unfold rebuildIndexWith
  split
  · exact .refl table st
  · have hdestroy : Touches table st (indexRegistryDestroyAll st) :=
      touches_registry st fun _ _ => .inr rfl
    have hreg := @touches_indexRegistryGetOrCreate (indexRegistryDestroyAll st) table
    rcases hget : indexRegistryGetOrCreate (indexRegistryDestroyAll st) table with
      ⟨_ | tree, st₂⟩ <;> rw [hget] at hreg
    · exact hdestroy.trans hreg
    · dsimp only
      split
      · exact hdestroy.trans hreg
      · exact (hdestroy.trans hreg).trans (touches_setTree _)

end Index

/-! ## Inserting -/

section Insert

variable {st : Storage} {table : CStr}

theorem touches_appendCsvRow {path : Path} (hpath : OwnPath table path) (row : Row) :
    Touches table st (appendCsvRow st path row) := by
  have hget : Touches table st (appendFpGet st path) := by
    unfold appendFpGet
    split
    · exact .refl table st
    · let open' := if metaCacheMax ≤ st.appendFp.length then st.appendFp.tail else st.appendFp
      have hkept : ∀ p ∈ open', p ∈ st.appendFp := by
        intro p hmem
        dsimp only [open'] at hmem
        split at hmem
        · exact List.mem_of_mem_tail hmem
        · exact hmem
      have hopen : Touches table st { st with appendFp := open' ++ [path] } := by
        refine touches_appendFp st fun p hp hmem => ?_
        rcases List.mem_append.mp hmem with hmem | hmem
        · exact hkept p hmem
        · obtain rfl := List.mem_singleton.mp hmem
          exact absurd hpath hp
      exact hopen.trans (touches_setFile _ hpath _)
  unfold appendCsvRow
  dsimp only
  split
  · exact hget.trans (touches_setFile _ hpath _)
  · exact hget

theorem touches_ensureMeta (hshort : table.length ≤ nameMax) (path : Path) (idCol : ℕ) :
    Touches table st (ensureMeta st table path idCol) := by
  unfold ensureMeta
  rw [List.take_of_length_le hshort]
  split
  · exact .refl table st
  · exact touches_metaCache st fun name hn => Slots.find_add_of_ne _ hn

theorem touches_nextAutoId (hshort : table.length ≤ nameMax) (path : Path) (idCol : ℕ) :
    Touches table st (nextAutoId st table path idCol).2 := by
  have hrefresh : Touches table st (refreshMeta st table path) := by
    unfold refreshMeta
    split
    · split
      · exact touches_metaCache st fun name hn => Slots.find_modify_of_ne _ _ hn
      · exact .refl table st
    · exact .refl table st
  unfold nextAutoId
  dsimp only
  split
  · exact hrefresh
  · split
    · exact hrefresh.trans (touches_ensureMeta hshort path idCol)
    · exact hrefresh

theorem touches_finishInsert {path : Path} (hpath : OwnPath table path) (idCol : ℕ) (row : Row)
    (auto : Option ℤ) : Touches table st (finishInsert st table path idCol row auto).2 := by
  have happend := @touches_appendCsvRow st table path hpath row
  unfold finishInsert
  dsimp only
  split
  · exact happend
  · have hreg := @touches_indexRegistryGetOrCreate (appendCsvRow st path row) table
    rcases hget : indexRegistryGetOrCreate (appendCsvRow st path row) table with
      ⟨_ | tree, st₂⟩ <;> rw [hget] at hreg
    · exact (happend.trans hreg).trans
        (touches_metaCache _ fun _ hn => Slots.find_modify_of_ne _ _ hn)
    · exact ((happend.trans hreg).trans (touches_setTree _)).trans
        (touches_metaCache _ fun _ hn => Slots.find_modify_of_ne _ _ hn)

theorem touches_insertWithId (hshort : table.length ≤ nameMax) {path : Path}
    (hpath : OwnPath table path) (schema : List ColDef) (idCol : ℕ) (columns values : List CStr) :
    Touches table st (insertWithId st table path schema idCol columns values).2 := by
  have hmeta := @touches_ensureMeta st table hshort path idCol
  unfold insertWithId
  dsimp only
  split
  · exact hmeta
  · split
    · exact hmeta
    · exact hmeta.trans (touches_finishInsert hpath _ _ _)
  · have hnext := @touches_nextAutoId (ensureMeta st table path idCol) table hshort path idCol
    rcases hauto : nextAutoId (ensureMeta st table path idCol) table path idCol with
      ⟨_ | id, st₁⟩ <;> rw [hauto] at hnext
    · exact hmeta.trans hnext
    · dsimp only
      split
      · exact hmeta.trans hnext
      · exact (hmeta.trans hnext).trans (touches_finishInsert hpath _ _ _)

theorem touches_storageInsert (hwf : st.Wf) (hshort : table.length ≤ nameMax)
    (columns values : List CStr) : Touches table st (storageInsert st table columns values).2 := by
  obtain ⟨hopen, hown⟩ := @touches_openTable st table hwf hshort
  unfold storageInsert
  split
  · exact .refl table st
  rcases hot : openTable st table with ⟨_ | ⟨path, schema⟩, st₁⟩ <;> rw [hot] at hopen hown
  · exact hopen
  obtain ⟨place, rfl⟩ := hown path schema rfl
  have hpath := ownPath_table place table
  dsimp only
  split
  · exact hopen.trans (touches_insertWithId hshort hpath _ _ _ _)
  · split
    · exact hopen
    · exact hopen.trans (touches_appendCsvRow hpath _)

end Insert

/-! ## Deleting and updating -/

section Rewrite

variable {st : Storage} {table : CStr} {faults : RewriteFaults}

theorem buildTempPath_own {probe : Path → Bool} {path : Path}
    (h : buildTempPathWith probe table = some path) : OwnPath table path := by
  unfold buildTempPathWith at h
  split at h
  · exact absurd h (by simp)
  · split at h
    · split at h
      · exact Option.some.inj h ▸ ownPath_temp .legacy table
      · exact absurd h (by simp)
    · exact Option.some.inj h ▸ ownPath_temp .nested table

theorem touches_rewritePaths (hwf : st.Wf) (hshort : table.length ≤ nameMax) :
    Touches table st (rewritePaths faults st table).2 ∧ ∀ sp path temp,
      (rewritePaths faults st table).1 = some (sp, path, temp) →
        OwnPath table path ∧ OwnPath table temp := by
  let probe := fun path => st.pathExists path && !faults.probe path
  have hs := @touches_buildSchemaPath probe st table hshort
  unfold rewritePaths
  dsimp only
  rcases hbs : buildSchemaPathWith probe st table with ⟨_ | sp, st₁⟩ <;> rw [hbs] at hs
  · exact ⟨hs, by simp⟩
  have ht := @touches_buildTablePath probe st₁ table hshort
  have htp := fun path => @buildTablePath_own probe st₁ table (hs.wf hwf) path
  dsimp only
  rcases hbt : buildTablePathWith probe st₁ table with ⟨_ | path, st₂⟩ <;> rw [hbt] at ht htp
  · exact ⟨hs.trans ht, by simp⟩
  obtain ⟨pt, rfl⟩ := htp path rfl
  dsimp only
  rcases htemp : buildTempPathWith probe table with _ | temp
  · exact ⟨hs.trans ht, by simp⟩
  · refine ⟨hs.trans ht, ?_⟩
    rintro sp' path' temp' ⟨⟩
    exact ⟨ownPath_table pt table, buildTempPath_own htemp⟩

theorem touches_rewriteRows {path temp : Path} (hpath : OwnPath table path)
    (htemp : OwnPath table temp) (width : ℕ) (plan : RowPlan) :
    Touches table st (rewriteRows faults st path temp width plan).2 := by
  unfold rewriteRows
  split
  · exact touches_setFile st htemp _
  · have hclose : Touches table st (appendFpInvalidate st path) :=
      touches_appendFp st fun p _ hmem => List.mem_of_mem_erase hmem
    unfold replaceTableFile
    dsimp only
    split
    · exact hclose.trans (touches_setFile _ htemp _)
    · split
      · exact (hclose.trans (touches_setFile _ hpath _)).trans (touches_setFile _ htemp _)
      · exact (hclose.trans (touches_setFile _ htemp _)).trans (touches_setFile _ hpath _)

theorem touches_rewriteTable (hwf : st.Wf) (hshort : table.length ≤ nameMax)
    (plan : List ColDef → Option RowPlan) :
    Touches table st (rewriteTable faults st table plan).2 := by
  obtain ⟨hpaths, hown⟩ := @touches_rewritePaths st table faults hwf hshort
  unfold rewriteTable
  rcases hrp : rewritePaths faults st table with ⟨_ | ⟨sp, path, temp⟩, st₁⟩ <;>
    rw [hrp] at hpaths hown
  · exact hpaths
  obtain ⟨hpath, htemp⟩ := hown sp path temp rfl
  dsimp only
  split
  · exact hpaths
  · split
    · exact hpaths
    · rename_i schema _ _ plan' _
      have hrows := @touches_rewriteRows st₁ table faults path temp hpath htemp schema.length plan'
      rcases hrr : rewriteRows faults st₁ path temp schema.length plan' with ⟨_ | _, st₂⟩ <;>
        rw [hrr] at hrows
      · exact hpaths.trans hrows
      · exact ((hpaths.trans hrows).trans touches_invalidateMetaCache).trans
          (touches_rebuildIndex _ _ _)

theorem touches_storageDelete [CDouble] (hwf : st.Wf) (hshort : table.length ≤ nameMax)
    (sql : ParsedSQL) : Touches table st (storageDelete st table sql).2 := by
  unfold storageDelete storageDeleteWith
  split
  · exact touches_rewriteTable hwf hshort _
  · exact .refl table st

theorem touches_storageUpdate [CDouble] (hwf : st.Wf) (hshort : table.length ≤ nameMax)
    (sql : ParsedSQL) : Touches table st (storageUpdate st table sql).2 := by
  unfold storageUpdate storageUpdateWith
  split
  · exact touches_rewriteTable hwf hshort _
  · exact .refl table st

end Rewrite

/-! ## Creating -/

section Create

variable {st : Storage} {table : CStr}

theorem touches_createPaths {faults : CreateFaults} (hwf : st.Wf) (hshort : table.length ≤ nameMax) :
    Touches table st (createPaths faults st table).2 ∧ ∀ sp path,
      (createPaths faults st table).1 = some (sp, path) →
        OwnPath table sp ∧ OwnPath table path := by
  let probe := fun path => st.pathExists path && !faults.probe path
  have hs := @touches_buildSchemaPath probe st table hshort
  have hsp := fun path => @buildSchemaPath_own probe st table hwf path
  unfold createPaths
  dsimp only
  rcases hbs : buildSchemaPathWith probe st table with ⟨_ | sp, st₁⟩ <;> rw [hbs] at hs hsp
  · exact ⟨hs, by simp⟩
  obtain ⟨ps, rfl⟩ := hsp sp rfl
  have ht := @touches_buildTablePath probe st₁ table hshort
  have htp := fun path => @buildTablePath_own probe st₁ table (hs.wf hwf) path
  dsimp only
  rcases hbt : buildTablePathWith probe st₁ table with ⟨_ | path, st₂⟩ <;> rw [hbt] at ht htp
  · exact ⟨hs.trans ht, by simp⟩
  · obtain ⟨pt, rfl⟩ := htp path rfl
    refine ⟨hs.trans ht, ?_⟩
    rintro sp' path' ⟨⟩
    exact ⟨ownPath_schema ps table, ownPath_table pt table⟩

theorem touches_createInvalidate {sp : Path} (hsp : OwnPath table sp) (path : Path) :
    Touches table st (createInvalidate st table sp path) := by
  have hclose : Touches table st (appendFpInvalidate st path) :=
    touches_appendFp st fun p _ hmem => List.mem_of_mem_erase hmem
  have hschemas : Touches table (appendFpInvalidate st path)
      { appendFpInvalidate st path with schemaCache := st.schemaCache.remove sp } := by
    refine touches_schemaCache _ (fun p hp => Slots.find_remove_of_ne _ ?_)
      fun hwf => Slots.nodup_keys_remove hwf.schemas
    rintro rfl
    exact hp hsp
  refine (hclose.trans hschemas).trans (touches_pathCache _
    (fun name hn => Slots.find_remove_of_ne _ hn) fun hwf => ⟨Slots.nodup_keys_remove hwf.paths, ?_⟩)
  intro e he
  have hnone : (st.pathCache.remove table).find table = none := Slots.find_remove_self hwf.paths
  exact absurd (hnone.symm.trans he) (by simp)

theorem touches_writeSchema {faults : CreateFaults} {sp path : Path} (hsp : OwnPath table sp)
    (hpath : OwnPath table path) (colDefs : List CStr) :
    Touches table st (writeSchema faults st sp path colDefs).2 := by
  unfold writeSchema
  dsimp only
  split
  · exact touches_setFile st hsp _
  · split
    · exact touches_setFile st hsp _
    · split
      · exact touches_setFile st hsp _
      · have hwrite := fun text => @touches_setFile table st sp hsp (some text)
        split
        · exact (hwrite _).trans (touches_setFile _ hsp _)
        · split
          · exact ((hwrite _).trans (touches_setFile _ hpath _)).trans (touches_setFile _ hsp _)
          · exact (hwrite _).trans (touches_setFile _ hpath _)

theorem touches_storageCreate (hwf : st.Wf) (hshort : table.length ≤ nameMax)
    (colDefs : List CStr) : Touches table st (storageCreate st table colDefs).2 := by
  obtain ⟨hpaths, hown⟩ := @touches_createPaths st table .none hwf hshort
  unfold storageCreate storageCreateWith
  split
  · exact .refl table st
  rcases hcp : createPaths .none st table with ⟨_ | ⟨sp, path⟩, st₁⟩ <;> rw [hcp] at hpaths hown
  · exact hpaths
  · obtain ⟨hsp, hpath⟩ := hown sp path rfl
    exact (hpaths.trans (touches_createInvalidate hsp path)).trans
      (touches_writeSchema hsp hpath colDefs)

end Create

end MiniSql

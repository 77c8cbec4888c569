import MiniSql.Storage.Statements

/-!
# The paths of a table do not change while it is read

What `build_schema_path` and `build_table_path` answer is what the cache knows or what
`path_exists` says. Asking puts the answer into the cache, or finds no room for it, and the next
answer is the same. So a table that is opened again is the same table, whatever it is called.

## Main definitions

* `schemaAnswer`, `tableAnswer` — what the cache knows, or `probedSchema`, `probedTable`.
* `SameAnswers` — two states that give the same ones.

## Main results

* `openSelect_fst`, `SameAnswers.openSelect` — what is opened depends on the answers.
* `sameAnswers_openSelect`, `sameAnswers_ensureIndex` — reading keeps them.
-/

namespace MiniSql
open CText

variable {st st' : Storage} {table : CStr}

/-- What `path_exists` says about the schema, if the paths are not too long. -/
def probedSchema (probe : Path → Bool) (table : CStr) : Option (Place × CStr) :=
  if !fitsPath (schemaPath .nested table) || !fitsPath (schemaPath .legacy table) then none
  else some (if !probe (schemaPath .nested table) && probe (schemaPath .legacy table)
    then .legacy else .nested, table)

/-- What `path_exists` says about the file. -/
def probedTable (probe : Path → Bool) (table : CStr) : Option (Place × CStr) :=
  if !fitsPath (tablePath .nested table) || !fitsPath (tablePath .legacy table) ||
      !fitsPath (schemaPath .nested table) then none
  else some (if !(probe (tablePath .nested table) || probe (schemaPath .nested table)) &&
    probe (tablePath .legacy table) then .legacy else .nested, table)

/-- The place and the name behind the answer of `build_schema_path`. -/
def schemaAnswer (st : Storage) (table : CStr) : Option (Place × CStr) :=
  ((st.pathCache.find table).bind (·.schema)).or (probedSchema st.pathExists table)

/-- The place and the name behind the answer of `build_table_path`. -/
def tableAnswer (st : Storage) (table : CStr) : Option (Place × CStr) :=
  ((st.pathCache.find table).bind (·.table)).or (probedTable st.pathExists table)

/-- The same files, and the same answers about a table. -/
structure SameAnswers (table : CStr) (st st' : Storage) : Prop where
  files : st'.files = st.files
  schema : schemaAnswer st' table = schemaAnswer st table
  table : tableAnswer st' table = tableAnswer st table

theorem SameAnswers.refl (table : CStr) (st : Storage) : SameAnswers table st st :=
  ⟨rfl, rfl, rfl⟩

theorem SameAnswers.trans {st'' : Storage} (h : SameAnswers table st st')
    (h' : SameAnswers table st' st'') : SameAnswers table st st'' :=
  ⟨h'.files.trans h.files, h'.schema.trans h.schema, h'.table.trans h.table⟩

theorem pathExists_congr (h : st'.files = st.files) : st'.pathExists = st.pathExists := by
  funext path
  rw [Storage.pathExists, h, Storage.pathExists]

/-- Only the entry of the table in the path cache counts, and only as far as it is an answer. -/
theorem sameAnswers_of_find (hfiles : st'.files = st.files)
    (hschema : ((st'.pathCache.find table).bind (·.schema)).or (probedSchema st.pathExists table) =
      schemaAnswer st table)
    (htable : ((st'.pathCache.find table).bind (·.table)).or (probedTable st.pathExists table) =
      tableAnswer st table) : SameAnswers table st st' := by
  refine ⟨hfiles, ?_, ?_⟩
  · rw [schemaAnswer, pathExists_congr hfiles, hschema]
  · rw [tableAnswer, pathExists_congr hfiles, htable]

theorem sameAnswers_of_eq (hfiles : st'.files = st.files) (hcache : st'.pathCache = st.pathCache) :
    SameAnswers table st st' :=
  sameAnswers_of_find hfiles (by rw [hcache, schemaAnswer]) (by rw [hcache, tableAnswer])

/-- A new entry is found under the name of the table, or nothing changes for it. -/
theorem find_add_name (cache : Slots CStr TablePaths) (hnone : cache.find table = none)
    (entry : TablePaths) :
    (cache.add metaCacheMax (table.take nameMax) entry).find table = some entry ∨
      (cache.add metaCacheMax (table.take nameMax) entry).find table = none := by
  by_cases hroom : cache.length < metaCacheMax
  · by_cases hshort : table.take nameMax = table
    · rw [hshort]
      exact .inl (Slots.find_add_self _ hroom hnone)
    · exact .inr ((Slots.find_add_of_ne _ (Ne.symm hshort)).trans hnone)
  · rw [Slots.add_of_full hroom]
    exact .inr hnone

theorem buildSchemaPath_answer (st : Storage) (table : CStr) :
    (buildSchemaPath st table).1 = (schemaAnswer st table).map fun a => schemaPath a.1 a.2 := by
  unfold buildSchemaPath buildSchemaPathWith schemaAnswer probedSchema
  dsimp only
  cases (st.pathCache.find table).bind (·.schema) with
  | some a => rfl
  | none =>
    dsimp only
    rw [Option.none_or]
    split <;> rfl

theorem buildTablePath_answer (st : Storage) (table : CStr) :
    (buildTablePath st table).1 = (tableAnswer st table).map fun a => tablePath a.1 a.2 := by
  unfold buildTablePath buildTablePathWith tableAnswer probedTable
  dsimp only
  cases (st.pathCache.find table).bind (·.table) with
  | some a => rfl
  | none =>
    dsimp only
    rw [Option.none_or]
    split <;> rfl

theorem sameAnswers_buildSchemaPath (st : Storage) (table : CStr) :
    SameAnswers table st (buildSchemaPath st table).2 := by
  unfold buildSchemaPath buildSchemaPathWith
  dsimp only
  cases hcached : (st.pathCache.find table).bind (·.schema) with
  | some a => exact .refl table st
  | none =>
    dsimp only
    split
    · exact .refl table st
    rename_i hfits
    set place : Place := if !st.pathExists (schemaPath .nested table) &&
      st.pathExists (schemaPath .legacy table) then .legacy else .nested
    have hfresh : probedSchema st.pathExists table = some (place, table) := if_neg hfits
    cases hentry : st.pathCache.find table with
    | none =>
      refine sameAnswers_of_find rfl ?_ ?_
      · rcases find_add_name st.pathCache hentry ⟨some (place, table), none⟩ with h | h
        · simp only [h, schemaAnswer, hentry, hfresh, Option.bind_some, Option.bind_none,
            Option.some_or, Option.none_or]
        · simp only [h, schemaAnswer, hentry]
      · rcases find_add_name st.pathCache hentry ⟨some (place, table), none⟩ with h | h
        · simp only [h, tableAnswer, hentry, Option.bind_some, Option.bind_none]
        · simp only [h, tableAnswer, hentry]
    | some entry =>
      rw [hentry, Option.bind_some] at hcached
      refine sameAnswers_of_find rfl ?_ ?_
      · simp only [schemaAnswer, Slots.find_modify_self, hentry, Option.map_some, Option.bind_some,
          hcached, hfresh, Option.some_or, Option.none_or]
      · simp only [tableAnswer, Slots.find_modify_self, hentry, Option.map_some, Option.bind_some]

theorem sameAnswers_buildTablePath (st : Storage) (table : CStr) :
    SameAnswers table st (buildTablePath st table).2 := by
  unfold buildTablePath buildTablePathWith
  dsimp only
  cases hcached : (st.pathCache.find table).bind (·.table) with
  | some a => exact .refl table st
  | none =>
    dsimp only
    split
    · exact .refl table st
    rename_i hfits
    set place : Place := if !(st.pathExists (tablePath .nested table) ||
      st.pathExists (schemaPath .nested table)) && st.pathExists (tablePath .legacy table)
      then .legacy else .nested
    have hfresh : probedTable st.pathExists table = some (place, table) := if_neg hfits
    cases hentry : st.pathCache.find table with
    | none =>
      refine sameAnswers_of_find rfl ?_ ?_
      · rcases find_add_name st.pathCache hentry ⟨none, some (place, table)⟩ with h | h
        · simp only [h, schemaAnswer, hentry, Option.bind_some, Option.bind_none]
        · simp only [h, schemaAnswer, hentry]
      · rcases find_add_name st.pathCache hentry ⟨none, some (place, table)⟩ with h | h
        · simp only [h, tableAnswer, hentry, hfresh, Option.bind_some, Option.bind_none,
            Option.some_or, Option.none_or]
        · simp only [h, tableAnswer, hentry]
    | some entry =>
      rw [hentry, Option.bind_some] at hcached
      refine sameAnswers_of_find rfl ?_ ?_
      · simp only [schemaAnswer, Slots.find_modify_self, hentry, Option.map_some, Option.bind_some]
      · simp only [tableAnswer, Slots.find_modify_self, hentry, Option.map_some, Option.bind_some,
          hcached, hfresh, Option.some_or, Option.none_or]

/-- What a SELECT opens. -/
theorem openSelect_fst (st : Storage) (table : CStr) :
    (openSelect st table).1 =
      if table = [] then none
      else (schemaAnswer st table).bind fun s => (tableAnswer st table).bind fun t =>
        ((st.files (schemaPath s.1 s.2)).bind parseSchema).map fun schema =>
          (tablePath t.1 t.2, schema) := by
  have hs := buildSchemaPath_answer st table
  have hsame := sameAnswers_buildSchemaPath st table
  unfold openSelect
  split
  · rfl
  rcases hbs : buildSchemaPath st table with ⟨_ | sp, st₁⟩ <;> rw [hbs] at hs hsame <;>
    cases hanswer : schemaAnswer st table with
    | none => first | rfl | (rw [hanswer] at hs; exact absurd hs (by simp))
    | some s => ?_
  · rw [hanswer] at hs
    exact absurd hs (by simp)
  rw [hanswer] at hs
  obtain rfl : sp = schemaPath s.1 s.2 := Option.some.inj hs
  have ht := buildTablePath_answer st₁ table
  have hsame' := hsame.trans (sameAnswers_buildTablePath st₁ table)
  rw [hsame.table] at ht
  dsimp only
  rcases hbt : buildTablePath st₁ table with ⟨_ | path, st₂⟩ <;> rw [hbt] at ht hsame' <;>
    cases htable : tableAnswer st table with
    | none => first | rfl | (rw [htable] at ht; exact absurd ht (by simp))
    | some t => ?_
  · rw [htable] at ht
    exact absurd ht (by simp)
  rw [htable] at ht
  obtain rfl : path = tablePath t.1 t.2 := Option.some.inj ht
  dsimp only [Option.bind_some]
  rw [loadSchema, hsame'.files]

theorem SameAnswers.openSelect (h : SameAnswers table st st') :
    (openSelect st' table).1 = (openSelect st table).1 := by
  rw [openSelect_fst, openSelect_fst, h.files, h.schema, h.table]

theorem sameAnswers_openSelect (st : Storage) (table : CStr) :
    SameAnswers table st (MiniSql.openSelect st table).2 := by
  have hs := sameAnswers_buildSchemaPath st table
  unfold MiniSql.openSelect
  split
  · exact .refl table st
  rcases hbs : buildSchemaPath st table with ⟨_ | sp, st₁⟩ <;> rw [hbs] at hs
  · exact hs
  have ht := sameAnswers_buildTablePath st₁ table
  dsimp only
  rcases hbt : buildTablePath st₁ table with ⟨_ | path, st₂⟩ <;> rw [hbt] at ht <;>
    exact hs.trans ht

theorem sameAnswers_openTable (st : Storage) (table : CStr) :
    SameAnswers table st (openTable st table).2 := by
  have hs := sameAnswers_buildSchemaPath st table
  unfold openTable
  rcases hbs : buildSchemaPath st table with ⟨_ | sp, st₁⟩ <;> rw [hbs] at hs
  · exact hs
  have ht := sameAnswers_buildTablePath st₁ table
  dsimp only
  rcases hbt : buildTablePath st₁ table with ⟨_ | path, st₂⟩ <;> rw [hbt] at ht
  · exact hs.trans ht
  obtain ⟨schemas, hg⟩ := schemaCacheGet_snd st₂ sp
  have hlast : SameAnswers table st₂ { st₂ with schemaCache := schemas } :=
    sameAnswers_of_eq rfl rfl
  dsimp only
  rcases hget : schemaCacheGet st₂ sp with ⟨_ | schema, st₃⟩ <;> rw [hget] at hg <;> subst hg <;>
    exact (hs.trans ht).trans hlast

/-- Filling the index changes neither the files nor the answers. -/
theorem sameAnswers_ensureIndex (st : Storage) (table : CStr) :
    SameAnswers table st (ensureIndex st table) := by
  have hopen := sameAnswers_openTable st table
  rw [ensureIndex_eq]
  split
  · exact .refl table st
  rcases hot : openTable st table with ⟨_ | ⟨path, schema⟩, st₁⟩ <;> rw [hot] at hopen
  · exact hopen
  dsimp only at hopen ⊢
  split
  · obtain ⟨rebuilt, hmark⟩ := markRebuilt_snd st₁ table
    rw [hmark]
    exact hopen.trans (sameAnswers_of_eq rfl rfl)
  · rename_i idCol _
    obtain ⟨registry, hreg⟩ := indexRegistryGetOrCreate_snd st₁ table
    rcases hget : indexRegistryGetOrCreate st₁ table with ⟨_ | tree, st₂⟩ <;>
      rw [hget] at hreg <;> subst hreg <;> dsimp only
    · exact hopen.trans (sameAnswers_of_eq rfl rfl)
    · obtain ⟨cache, registry', rebuilt, hfill⟩ := fillIndex_snd
        { st₁ with registry := registry } table path schema idCol tree
      rw [hfill]
      exact hopen.trans (sameAnswers_of_eq rfl rfl)

end MiniSql

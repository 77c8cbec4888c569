import MiniSql.Storage.Touch

/-!
# A table on its own

Seen from outside, a table is the schema in its schema file and the text of its file. Where
these files are is decided by which files exist, and the caches only repeat what the files say.
This is the view in which the statements are specified; a statement on one table is invisible
in the view of every other.

## Main definitions

* `PlainName` — the names that are file names of their own.
* `Storage.schemaFile`, `Storage.tableFile`, `Storage.tableSchema`, `Storage.content` — the view.
* `Storage.Coherent` — the caches agree with the files of a table.
* `Storage.Sound` — the caches agree with the files of all tables.

## Main results

* `Sound.of_touches`, `Touches.view` — what a statement on one table means for the others.
* `openTable_view`, `openSelect_view`, `selectBy_view` — what is found behind the caches.
-/

namespace MiniSql
open CText

/-! ## Names -/

/-- A name without a directory in it that fits the caches. -/
def PlainName (table : CStr) : Prop := table.length ≤ nameMax ∧ '/' ∉ table

instance (table : CStr) : Decidable (PlainName table) := inferInstanceAs (Decidable (_ ∧ _))

/-- What follows the last slash of a path. -/
def baseName (path : Path) : CStr := path.rtakeWhile (· ≠ '/')

theorem baseName_append {dir name : CStr} (h : '/' ∉ name) : baseName (dir ++ '/' :: name) = name := by
  have hall : ∀ c ∈ name.reverse, decide (c ≠ '/') = true := by
    intro c hc
    have hne : c ≠ '/' := fun heq => h (heq ▸ List.mem_reverse.mp hc)
    simpa using hne
  rw [baseName, List.rtakeWhile, List.reverse_append, List.reverse_cons, List.append_assoc,
    List.takeWhile_append_of_pos hall]
  simp

/-- The files of a table are named after it. -/
theorem baseName_of_ownPath {table : CStr} {path : Path} (hplain : PlainName table)
    (h : OwnPath table path) : ∃ suffix ∈ [".schema".toList, ".csv".toList, ".csv.tmp".toList],
      baseName path = table ++ suffix := by
  have hbase : ∀ dir suffix : CStr, '/' ∉ suffix →
      baseName (dir ++ '/' :: (table ++ suffix)) = table ++ suffix := by
    intro dir suffix hsuffix
    exact baseName_append (by simp [hplain.2, hsuffix])
  obtain ⟨_ | _, rfl | rfl | rfl⟩ := h
  · exact ⟨_, by simp, hbase "data/schema".toList _ (by decide)⟩
  · exact ⟨_, by simp, hbase "data/tables".toList _ (by decide)⟩
  · exact ⟨_, by simp, hbase "data/tables".toList _ (by decide)⟩
  · exact ⟨_, by simp, hbase "data".toList _ (by decide)⟩
  · exact ⟨_, by simp, hbase "data".toList _ (by decide)⟩
  · exact ⟨_, by simp, hbase "data".toList _ (by decide)⟩

/-- **No file belongs to two tables.** -/
theorem ownPath_inj {table other : CStr} {path : Path} (hplain : PlainName table)
    (hother : PlainName other) (h : OwnPath table path) (h' : OwnPath other path) :
    table = other := by
  obtain ⟨a, ha, hbase⟩ := baseName_of_ownPath hplain h
  obtain ⟨b, hb, hbase'⟩ := baseName_of_ownPath hother h'
  have heq : table ++ a = other ++ b := hbase.symm.trans hbase'
  have hlast : a.getLast? = b.getLast? := by
    have := congrArg List.getLast? heq
    have hsome : ∀ s ∈ [".schema".toList, ".csv".toList, ".csv.tmp".toList], s.getLast?.isSome := by
      decide
    obtain ⟨c, hc⟩ := Option.isSome_iff_exists.mp (hsome a ha)
    obtain ⟨d, hd⟩ := Option.isSome_iff_exists.mp (hsome b hb)
    rw [List.getLast?_append, List.getLast?_append, hc, hd] at this
    rw [hc, hd]
    simpa using this
  have hkind : ∀ s ∈ [".schema".toList, ".csv".toList, ".csv.tmp".toList],
      ∀ t ∈ [".schema".toList, ".csv".toList, ".csv.tmp".toList],
        s.getLast? = t.getLast? → s = t := by
    decide
  rw [hkind a ha b hb hlast] at heq
  exact List.append_cancel_right heq

theorem binPath_not_own (table other : CStr) : ¬ OwnPath other (binPath table) := by
  have hbin : (binPath table).getLast? = some 'n' := getLast?_affix (by decide)
  rintro ⟨_ | _, h | h | h⟩ <;> rw [h] at hbin
  · exact absurd ((getLast?_affix (by decide : ".schema".toList.getLast? = some 'a')).symm.trans hbin)
      (by decide)
  · exact absurd ((getLast?_tablePath .nested other).symm.trans hbin) (by decide)
  · exact absurd ((getLast?_affix (by decide : ".csv.tmp".toList.getLast? = some 'p')).symm.trans hbin)
      (by decide)
  · exact absurd ((getLast?_affix (by decide : ".schema".toList.getLast? = some 'a')).symm.trans hbin)
      (by decide)
  · exact absurd ((getLast?_tablePath .legacy other).symm.trans hbin) (by decide)
  · exact absurd ((getLast?_affix (by decide : ".csv.tmp".toList.getLast? = some 'p')).symm.trans hbin)
      (by decide)

theorem length_affix (a name b : CStr) :
    (a ++ name ++ b).length = a.length + b.length + name.length := by
  simp only [List.length_append]
  omega

theorem length_schemaPath (place : Place) (table : CStr) :
    (schemaPath place table).length = (match place with | .nested => 19 | .legacy => 12) + table.length := by
  cases place <;> exact length_affix _ _ _

theorem length_tablePath (place : Place) (table : CStr) :
    (tablePath place table).length = (match place with | .nested => 16 | .legacy => 9) + table.length := by
  cases place <;> exact length_affix _ _ _

theorem length_tempPath (place : Place) (table : CStr) :
    (tempPath place table).length = (match place with | .nested => 20 | .legacy => 13) + table.length := by
  cases place <;> exact length_affix _ _ _

theorem schemaPath_inj {place place' : Place} {table : CStr}
    (h : schemaPath place table = schemaPath place' table) : place = place' := by
  have hlen := congrArg List.length h
  rw [length_schemaPath, length_schemaPath] at hlen
  cases place <;> cases place' <;> simp at hlen ⊢

theorem tablePath_inj {place place' : Place} {table : CStr}
    (h : tablePath place table = tablePath place' table) : place = place' := by
  have hlen := congrArg List.length h
  rw [length_tablePath, length_tablePath] at hlen
  cases place <;> cases place' <;> simp at hlen ⊢

theorem tempPath_ne_schemaPath (place place' : Place) (table name : CStr) :
    tempPath place table ≠ schemaPath place' name := by
  intro h
  have htemp : (tempPath place table).getLast? = some 'p' := by
    cases place <;> exact getLast?_affix (by decide)
  have hschema : (schemaPath place' name).getLast? = some 'a' := by
    cases place' <;> exact getLast?_affix (by decide)
  rw [h, hschema] at htemp
  exact absurd htemp (by decide)

/-- The paths of a table fit their buffers. -/
theorem fitsPath_of_short {table : CStr} (h : table.length ≤ nameMax) (place : Place) :
    fitsPath (schemaPath place table) = true ∧ fitsPath (tablePath place table) = true ∧
      fitsPath (tempPath place table) = true := by
  have hmax : nameMax = 63 := rfl
  simp only [fitsPath, length_schemaPath, length_tablePath, length_tempPath, storagePathMax,
    decide_eq_true_eq]
  cases place <;> dsimp only <;> omega

theorem fitsPath_binPath {table : CStr} (h : table.length ≤ nameMax) :
    fitsPath (binPath table) = true := by
  have hmax : nameMax = 63 := rfl
  have hlen : (binPath table).length = 16 + table.length := length_affix _ _ _
  simp only [fitsPath, hlen, storagePathMax, decide_eq_true_eq]
  omega

/-! ## The view -/

/-- Where the files say that the schema of a table is. -/
def Storage.schemaPlace (st : Storage) (table : CStr) : Place :=
  if !st.pathExists (schemaPath .nested table) && st.pathExists (schemaPath .legacy table)
  then .legacy else .nested

/-- Where the files say that the rows of a table are. -/
def Storage.tablePlace (st : Storage) (table : CStr) : Place :=
  if !(st.pathExists (tablePath .nested table) || st.pathExists (schemaPath .nested table)) &&
    st.pathExists (tablePath .legacy table)
  then .legacy else .nested

def Storage.schemaFile (st : Storage) (table : CStr) : Path := schemaPath (st.schemaPlace table) table

def Storage.tableFile (st : Storage) (table : CStr) : Path := tablePath (st.tablePlace table) table

/-- The schema of a table. -/
def Storage.tableSchema (st : Storage) (table : CStr) : Option (List ColDef) :=
  loadSchema st (st.schemaFile table)

/-- The text of the file of a table. -/
def Storage.content (st : Storage) (table : CStr) : Option CStr := st.files (st.tableFile table)

theorem place_ext {p q : Place} (h : p = .legacy ↔ q = .legacy) : p = q := by
  cases p <;> cases q <;> simp at h ⊢

theorem schemaPlace_eq_legacy {st : Storage} {table : CStr} :
    st.schemaPlace table = .legacy ↔
      st.files (schemaPath .nested table) = none ∧ st.files (schemaPath .legacy table) ≠ none := by
  unfold Storage.schemaPlace Storage.pathExists
  simp [Option.isSome_iff_ne_none]

theorem tablePlace_eq_legacy {st : Storage} {table : CStr} :
    st.tablePlace table = .legacy ↔
      st.files (tablePath .nested table) = none ∧ st.files (schemaPath .nested table) = none ∧
        st.files (tablePath .legacy table) ≠ none := by
  unfold Storage.tablePlace Storage.pathExists
  simp [Option.isSome_iff_ne_none, and_assoc]

/-- The same table in two states. -/
structure SameTable (table : CStr) (st st' : Storage) : Prop where
  schemaFile : st'.schemaFile table = st.schemaFile table
  tableFile : st'.tableFile table = st.tableFile table
  tableSchema : st'.tableSchema table = st.tableSchema table
  content : st'.content table = st.content table

theorem SameTable.refl (table : CStr) (st : Storage) : SameTable table st st := ⟨rfl, rfl, rfl, rfl⟩

theorem SameTable.trans {table : CStr} {st st' st'' : Storage} (h : SameTable table st st')
    (h' : SameTable table st' st'') : SameTable table st st'' :=
  ⟨h'.schemaFile.trans h.schemaFile, h'.tableFile.trans h.tableFile,
    h'.tableSchema.trans h.tableSchema, h'.content.trans h.content⟩

/-- The view of a table is what its own files say. -/
theorem sameTable_of_own {table : CStr} {st st' : Storage}
    (h : ∀ path, OwnPath table path → st'.files path = st.files path) : SameTable table st st' := by
  have hschema := fun place => h _ (ownPath_schema place table)
  have htable := fun place => h _ (ownPath_table place table)
  have hs : st'.schemaPlace table = st.schemaPlace table := by
    refine place_ext ?_
    simp only [schemaPlace_eq_legacy, hschema]
  have ht : st'.tablePlace table = st.tablePlace table := by
    refine place_ext ?_
    simp only [tablePlace_eq_legacy, hschema, htable]
  have hsf : st'.schemaFile table = st.schemaFile table := by
    rw [Storage.schemaFile, hs, Storage.schemaFile]
  have htf : st'.tableFile table = st.tableFile table := by
    rw [Storage.tableFile, ht, Storage.tableFile]
  refine ⟨hsf, htf, ?_, ?_⟩
  · rw [Storage.tableSchema, hsf, Storage.tableSchema, loadSchema, loadSchema, Storage.schemaFile,
      hschema]
  · rw [Storage.content, htf, Storage.content, Storage.tableFile, htable]

/-- The caches agree with the files of a table. -/
structure Storage.Coherent (st : Storage) (table : CStr) : Prop where
  schemaPlace : ∀ e, st.pathCache.find table = some e →
    ∀ p ∈ e.schema, p = (st.schemaPlace table, table)
  tablePlace : ∀ e, st.pathCache.find table = some e → ∀ p ∈ e.table, p = (st.tablePlace table, table)
  schema : ∀ place schema, st.schemaCache.find (schemaPath place table) = some schema →
    loadSchema st (schemaPath place table) = some schema
  handle : ∀ place, ¬ st.Lost (tablePath place table)

/-- The caches agree with the files. -/
structure Storage.Sound (st : Storage) : Prop where
  wf : st.Wf
  coherent : ∀ table, PlainName table → st.Coherent table

theorem sound_start (files : Path → Option CStr) : (Storage.start files).Sound where
  wf := wf_start files
  coherent table _ :=
    ⟨by simp [Storage.start], by simp [Storage.start], by simp [Storage.start],
      by simp [Storage.Lost, Storage.start]⟩

/-! ## Files that stay -/

/-- Nothing was written but the file of the table and its temporary file, and the caches were not
touched. -/
structure Writes (table : CStr) (st st' : Storage) : Prop where
  files : ∀ path, (∀ place, path ≠ tempPath place table) → path ≠ st.tableFile table →
    st'.files path = st.files path
  content : st'.files (st.tableFile table) = st.content table ∨
    st'.files (st.tableFile table) ≠ none
  paths : st'.pathCache = st.pathCache
  schemas : st'.schemaCache = st.schemaCache
  handles : ∀ path ∈ st'.appendFp, path ∈ st.appendFp ∨ st'.files path ≠ none

section Writes

variable {table : CStr} {st st' : Storage}

theorem Writes.schemaPath_files (h : Writes table st st') (place : Place) :
    st'.files (schemaPath place table) = st.files (schemaPath place table) :=
  h.files _ (fun place' => (tempPath_ne_schemaPath place' place table table).symm)
    (schemaPath_ne_tablePath place _ table table)

theorem Writes.tablePath_files (h : Writes table st st') {place : Place}
    (hplace : place ≠ st.tablePlace table) :
    st'.files (tablePath place table) = st.files (tablePath place table) :=
  h.files _ (fun place' => (tempPath_ne_tablePath place' place table table).symm)
    fun heq => hplace (tablePath_inj heq)

theorem Writes.schemaPlace_eq (h : Writes table st st') :
    st'.schemaPlace table = st.schemaPlace table := by
  refine place_ext ?_
  simp only [schemaPlace_eq_legacy, h.schemaPath_files]

/-- Writing the file of a table does not move the table. -/
theorem Writes.tablePlace_eq (h : Writes table st st') :
    st'.tablePlace table = st.tablePlace table := by
  have hcontent := h.content
  unfold Storage.content Storage.tableFile at hcontent
  have hother := fun place => @Writes.tablePath_files table st st' h place
  have hlegacy := @tablePlace_eq_legacy st table
  refine place_ext ?_
  rw [tablePlace_eq_legacy, h.schemaPath_files]
  cases hplace : st.tablePlace table with
  | nested =>
    rw [hplace] at hcontent hother hlegacy
    have hsame := hother .legacy (by simp)
    rcases hcontent with hcontent | hcontent
    · rw [hsame, hcontent, ← hlegacy]
    · simp [hcontent]
  | legacy =>
    rw [hplace] at hcontent hother hlegacy
    have hsame := hother .nested (by simp)
    obtain ⟨hno, hno', hthere⟩ := hlegacy.mp rfl
    rcases hcontent with hcontent | hcontent
    · simp [hsame, hno, hno', hcontent, hthere]
    · simp [hsame, hno, hno', hcontent]

theorem Writes.schemaFile_eq (h : Writes table st st') :
    st'.schemaFile table = st.schemaFile table := by
  rw [Storage.schemaFile, h.schemaPlace_eq, Storage.schemaFile]

theorem Writes.tableFile_eq (h : Writes table st st') : st'.tableFile table = st.tableFile table := by
  rw [Storage.tableFile, h.tablePlace_eq, Storage.tableFile]

theorem Writes.loadSchema_eq (h : Writes table st st') (place : Place) :
    loadSchema st' (schemaPath place table) = loadSchema st (schemaPath place table) := by
  rw [loadSchema, h.schemaPath_files, loadSchema]

theorem Writes.tableSchema_eq (h : Writes table st st') :
    st'.tableSchema table = st.tableSchema table := by
  rw [Storage.tableSchema, h.schemaFile_eq, Storage.schemaFile, h.loadSchema_eq]
  rfl

theorem Writes.coherent (h : Writes table st st') (hc : st.Coherent table) : st'.Coherent table where
  schemaPlace := by
    rw [h.paths, h.schemaPlace_eq]
    exact hc.schemaPlace
  tablePlace := by
    rw [h.paths, h.tablePlace_eq]
    exact hc.tablePlace
  schema place schema := by
    rw [h.schemas, h.loadSchema_eq]
    exact hc.schema place schema
  handle place := by
    rintro ⟨hopen, hgone⟩
    rcases h.handles _ hopen with hbefore | hthere
    · refine hc.handle place ⟨hbefore, ?_⟩
      by_cases hplace : place = st.tablePlace table
      · subst hplace
        rcases h.content with hsame | hthere
        · exact hsame.symm.trans hgone
        · exact absurd hgone hthere
      · rw [← h.tablePath_files hplace]
        exact hgone
    · exact hthere hgone

end Writes

/-! ## Other tables -/

section Touches

variable {table other : CStr} {st st' : Storage}

theorem Touches.files_of_ne (h : Touches table st st') (hplain : PlainName table)
    (hother : PlainName other) (hne : other ≠ table) {path : Path} (hpath : OwnPath other path) :
    st'.files path = st.files path :=
  h.files path fun hown => hne (ownPath_inj hother hplain hpath hown)

/-- **A statement on one table leaves every other table alone.** -/
theorem Touches.view (h : Touches table st st') (hplain : PlainName table)
    (hother : PlainName other) (hne : other ≠ table) : SameTable other st st' :=
  sameTable_of_own fun _ hpath => h.files_of_ne hplain hother hne hpath

theorem Touches.coherent (h : Touches table st st') (hplain : PlainName table)
    (hother : PlainName other) (hne : other ≠ table) (hc : st.Coherent other) :
    st'.Coherent other := by
  have hview := h.view hplain hother hne
  have hnot : ∀ {path}, OwnPath other path → ¬ OwnPath table path :=
    fun hpath hown => hne (ownPath_inj hother hplain hpath hown)
  refine ⟨?_, ?_, fun place schema hschema => ?_, fun place => ?_⟩
  · rw [h.paths other hne, ← schemaPath_inj hview.schemaFile.symm]
    exact hc.schemaPlace
  · rw [h.paths other hne, ← tablePath_inj hview.tableFile.symm]
    exact hc.tablePlace
  · have hown := ownPath_schema place other
    rw [h.schemas _ (hnot hown)] at hschema
    rw [loadSchema, h.files _ (hnot hown)]
    exact hc.schema place schema hschema
  · rintro ⟨hopen, hgone⟩
    have hown := hnot (ownPath_table place other)
    rw [h.files _ hown] at hgone
    exact hc.handle place ⟨h.handles _ hown hopen, hgone⟩

/-- A statement that leaves its own table coherent leaves everything sound. -/
theorem Storage.Sound.of_touches (hs : st.Sound) (hplain : PlainName table)
    (h : Touches table st st') (hc : st'.Coherent table) : st'.Sound where
  wf := h.wf hs.wf
  coherent other hother := by
    by_cases hne : other = table
    · exact hne ▸ hc
    · exact h.coherent hplain hother hne (hs.coherent other hother)

end Touches

/-! ## Opening a table -/

section Open

variable {st : Storage} {table : CStr}

/-- The entry of a table after an answer was put into it, unless there was no room. -/
theorem find_cacheAnswer {cache : Slots CStr TablePaths} (hshort : table.length ≤ nameMax)
    (answer : TablePaths) (update : TablePaths → TablePaths) {e : TablePaths}
    (h : (cacheAnswer cache table answer update).find table = some e) :
    e = answer ∨ ∃ old, cache.find table = some old ∧ e = update old := by
  unfold cacheAnswer at h
  cases hfind : cache.find table with
  | none =>
    rw [hfind] at h
    dsimp only at h
    rw [List.take_of_length_le hshort] at h
    by_cases hroom : cache.length < metaCacheMax
    · rw [Slots.find_add_self _ hroom hfind] at h
      exact .inl (Option.some.inj h).symm
    · rw [Slots.add_of_full hroom, hfind] at h
      exact absurd h (by simp)
  | some old =>
    rw [hfind] at h
    dsimp only at h
    rw [Slots.find_modify_self, hfind] at h
    exact .inr ⟨old, rfl, (Option.some.inj h).symm⟩

theorem Storage.Coherent.pathCache (hc : st.Coherent table) {cache : Slots CStr TablePaths}
    (h : ∀ e, cache.find table = some e → (∀ p ∈ e.schema, p = (st.schemaPlace table, table)) ∧
      ∀ p ∈ e.table, p = (st.tablePlace table, table)) :
    ({ st with pathCache := cache } : Storage).Coherent table :=
  ⟨fun e he => (h e he).1, fun e he => (h e he).2, hc.schema, hc.handle⟩

/-- The path of the schema is found where the files say. -/
theorem buildSchemaPath_view (hshort : table.length ≤ nameMax) (hc : st.Coherent table) :
    ∃ cache, buildSchemaPathWith st.pathExists st table =
        (some (st.schemaFile table), { st with pathCache := cache }) ∧
      ({ st with pathCache := cache } : Storage).Coherent table := by
  have hnested := (fitsPath_of_short hshort .nested).1
  have hlegacy := (fitsPath_of_short hshort .legacy).1
  unfold buildSchemaPathWith
  dsimp only
  split
  · rename_i place name hcached
    obtain ⟨e, he, hschema⟩ := Option.bind_eq_some_iff.mp hcached
    obtain ⟨rfl, rfl⟩ := Prod.mk.inj (hc.schemaPlace e he _ hschema)
    exact ⟨_, rfl, hc⟩
  · rw [if_neg (by simp [hnested, hlegacy])]
    refine ⟨cacheAnswer st.pathCache table ⟨some (st.schemaPlace table, table), none⟩
      fun e => { e with schema := some (st.schemaPlace table, table) }, rfl, ?_⟩
    refine hc.pathCache fun e he => ?_
    rcases find_cacheAnswer hshort _ _ he with rfl | ⟨old, hold, rfl⟩
    · simp
    · exact ⟨by simp, hc.tablePlace old hold⟩

/-- The path of the file is found where the files say. -/
theorem buildTablePath_view (hshort : table.length ≤ nameMax) (hc : st.Coherent table) :
    ∃ cache, buildTablePathWith st.pathExists st table =
        (some (st.tableFile table), { st with pathCache := cache }) ∧
      ({ st with pathCache := cache } : Storage).Coherent table := by
  have hnested := (fitsPath_of_short hshort .nested).2.1
  have hlegacy := (fitsPath_of_short hshort .legacy).2.1
  have hschema := (fitsPath_of_short hshort .nested).1
  unfold buildTablePathWith
  dsimp only
  split
  · rename_i place name hcached
    obtain ⟨e, he, htable⟩ := Option.bind_eq_some_iff.mp hcached
    obtain ⟨rfl, rfl⟩ := Prod.mk.inj (hc.tablePlace e he _ htable)
    exact ⟨_, rfl, hc⟩
  · rw [if_neg (by simp [hnested, hlegacy, hschema])]
    refine ⟨cacheAnswer st.pathCache table ⟨none, some (st.tablePlace table, table)⟩
      fun e => { e with table := some (st.tablePlace table, table) }, rfl, ?_⟩
    refine hc.pathCache fun e he => ?_
    rcases find_cacheAnswer hshort _ _ he with rfl | ⟨old, hold, rfl⟩
    · simp
    · exact ⟨hc.schemaPlace old hold, by simp⟩

/-- A schema that is put into the cache is the one in the file. -/
theorem Storage.Coherent.schemaCacheGet (hc : st.Coherent table) (path : Path) :
    (schemaCacheGet st path).2.Coherent table := by
  unfold MiniSql.schemaCacheGet
  split
  · exact hc
  · rename_i hnone
    split
    · exact hc
    · rename_i schema hload
      refine ⟨hc.schemaPlace, hc.tablePlace, fun place schema' h => ?_, hc.handle⟩
      change (st.schemaCache.add metaCacheMax path schema).find _ = _ at h
      change loadSchema st _ = _
      by_cases hpath : schemaPath place table = path
      · rw [hpath] at h ⊢
        by_cases hroom : st.schemaCache.length < metaCacheMax
        · rw [Slots.find_add_self _ hroom hnone] at h
          exact Option.some.inj h ▸ hload
        · rw [Slots.add_of_full hroom, hnone] at h
          exact absurd h (by simp)
      · rw [Slots.find_add_of_ne _ hpath] at h
        exact hc.schema place schema' h

/-- The schema behind the cache is the one in the file. -/
theorem schemaCacheGet_view (hc : st.Coherent table) :
    (schemaCacheGet st (st.schemaFile table)).1 = st.tableSchema table ∧
      (schemaCacheGet st (st.schemaFile table)).2.Coherent table := by
  refine ⟨?_, hc.schemaCacheGet _⟩
  unfold schemaCacheGet
  split
  · rename_i schema hcached
    exact (hc.schema _ schema hcached).symm
  · split
    · rename_i hload
      exact hload.symm
    · rename_i schema hload
      exact hload.symm

/-- Opening a table for an INSERT finds its file and its schema. -/
theorem openTable_view (hshort : table.length ≤ nameMax) (hc : st.Coherent table) :
    ∃ paths schemas, openTable st table =
        ((st.tableSchema table).map fun schema => (st.tableFile table, schema),
          { st with pathCache := paths, schemaCache := schemas }) ∧
      ({ st with pathCache := paths, schemaCache := schemas } : Storage).Coherent table := by
  obtain ⟨c₁, h₁, hc₁⟩ := buildSchemaPath_view hshort hc
  obtain ⟨c₂, h₂, hc₂⟩ := buildTablePath_view hshort hc₁
  obtain ⟨hschema, hc₃⟩ := schemaCacheGet_view hc₂
  obtain ⟨schemas, h₃⟩ := schemaCacheGet_snd { st with pathCache := c₂ } (st.schemaFile table)
  refine ⟨c₂, schemas, ?_, h₃ ▸ hc₃⟩
  have hget : schemaCacheGet { st with pathCache := c₂ } (st.schemaFile table) =
      (st.tableSchema table, { st with pathCache := c₂, schemaCache := schemas }) :=
    Prod.ext hschema h₃
  unfold openTable buildSchemaPath buildTablePath
  rw [h₁]
  dsimp only
  rw [h₂]
  dsimp only
  rw [hget]
  cases st.tableSchema table <;> rfl

/-- Opening a table for a SELECT. -/
theorem openSelect_view (hshort : table.length ≤ nameMax) (hne : table ≠ [])
    (hc : st.Coherent table) :
    ∃ paths, openSelect st table =
        ((st.tableSchema table).map fun schema => (st.tableFile table, schema),
          { st with pathCache := paths }) ∧
      ({ st with pathCache := paths } : Storage).Coherent table := by
  obtain ⟨c₁, h₁, hc₁⟩ := buildSchemaPath_view hshort hc
  obtain ⟨c₂, h₂, hc₂⟩ := buildTablePath_view hshort hc₁
  refine ⟨c₂, ?_, hc₂⟩
  unfold openSelect buildSchemaPath buildTablePath
  rw [if_neg hne, h₁]
  dsimp only
  rw [h₂]
  rfl

/-- A SELECT is a question to the table's file. -/
theorem selectBy_view [CDouble] {find : Storage → Path → List ColDef → Option (List Row)}
    (hfind : ∀ paths, find { st with pathCache := paths } = find st) (sql : ParsedSQL)
    (hshort : table.length ≤ nameMax) (hne : table ≠ []) (hc : st.Coherent table) :
    ∃ paths, selectBy find st table sql =
        ((st.tableSchema table).bind fun schema =>
            (find st (st.tableFile table) schema).bind (buildRowset sql schema),
          { st with pathCache := paths }) ∧
      ({ st with pathCache := paths } : Storage).Coherent table := by
  obtain ⟨paths, hopen, hc'⟩ := openSelect_view hshort hne hc
  refine ⟨paths, ?_, hc'⟩
  unfold selectBy
  rw [hopen]
  cases st.tableSchema table with
  | none => rfl
  | some schema =>
    change ((find { st with pathCache := paths } _ _).bind _, _) = _
    rw [hfind]
    rfl

end Open

end MiniSql

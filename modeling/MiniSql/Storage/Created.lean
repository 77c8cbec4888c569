import MiniSql.Storage.Create
import MiniSql.Storage.Paths

/-!
# What a CREATE leaves behind

The schema file is truncated before the definitions are looked at, and a failed call removes it. A
call that succeeds makes both files, and the next statement asks anew where the table is: a table
that had rows in `data` and no schema is then found in `data/tables`, without the rows.

## Main definitions

* `tablePaths` — where a statement finds a table.
* `CreateSound` — what a call should leave behind.
* `CreateSafe` — the calls that do.

## Main results

* `storageCreate_sound_iff` — when a failed CREATE leaves the schema as it was and a successful
  one stores the declared columns and keeps the rows.
-/

namespace MiniSql
open CText

variable {st st' : Storage} {table : CStr}

/-! ## Where the table is -/

/-- Where a statement finds the schema and the rows of a table. -/
def tablePaths (st : Storage) (table : CStr) : Option (Path × Path) :=
  match buildSchemaPath st table with
  | (none, _) => none
  | (some sp, st) => (buildTablePath st table).1.map fun path => (sp, path)

theorem tablePaths_eq (st : Storage) (table : CStr) :
    tablePaths st table = (schemaAnswer st table).bind fun s =>
      (tableAnswer st table).map fun t => (schemaPath s.1 s.2, tablePath t.1 t.2) := by
  have hs := buildSchemaPath_answer st table
  have hsame := sameAnswers_buildSchemaPath st table
  unfold tablePaths
  rcases hbs : buildSchemaPath st table with ⟨_ | sp, st₁⟩ <;> rw [hbs] at hs hsame
  · rw [Option.map_eq_none_iff.mp hs.symm]
    rfl
  · obtain ⟨a, ha, rfl⟩ := Option.map_eq_some_iff.mp hs.symm
    have ht := buildTablePath_answer st₁ table
    rw [hsame.table] at ht
    dsimp only
    rw [ha, ht, Option.bind_some, Option.map_map]
    rfl

/-- A table is looked for where `path_exists` or the entry of the path cache says. -/
theorem tablePaths_congr (hexists : st'.pathExists = st.pathExists)
    (hfind : st'.pathCache.find table = st.pathCache.find table) :
    tablePaths st' table = tablePaths st table := by
  rw [tablePaths_eq, tablePaths_eq, schemaAnswer, schemaAnswer, tableAnswer, tableAnswer, hexists,
    hfind]

theorem tablePaths_spec {sp path : Path} (h : tablePaths st table = some (sp, path)) :
    (∃ place name, sp = schemaPath place name) ∧ ∃ place name, path = tablePath place name := by
  rw [tablePaths_eq] at h
  obtain ⟨s, -, hs⟩ := Option.bind_eq_some_iff.mp h
  obtain ⟨t, -, ht⟩ := Option.map_eq_some_iff.mp hs
  obtain ⟨rfl, rfl⟩ := Prod.mk.inj ht
  exact ⟨⟨_, _, rfl⟩, _, _, rfl⟩

/-- An entry that a call has made for the table goes with the invalidation. -/
theorem find_remove_name {cache : Slots CStr TablePaths} (hnone : cache.find table = none)
    (entry : TablePaths) :
    ((cache.add metaCacheMax (table.take nameMax) entry).remove table).find table =
      (cache.remove table).find table := by
  rw [Slots.remove_of_find_none hnone, hnone]
  unfold Slots.add
  split
  · by_cases hshort : table.take nameMax = table
    · rw [hshort, Slots.remove_append_self _ hnone, hnone]
    · have hfind : Slots.find (cache ++ [(table.take nameMax, entry)]) table = none := by
        rw [Slots.find_append, hnone, Slots.find_cons, if_neg hshort]
        rfl
      rw [Slots.remove_of_find_none hfind, hfind]
  · rw [Slots.remove_of_find_none hnone, hnone]

theorem find_remove_buildSchemaPathWith (probe : Path → Bool) (st : Storage) (table : CStr) :
    ((buildSchemaPathWith probe st table).2.pathCache.remove table).find table =
      (st.pathCache.remove table).find table := by
  unfold buildSchemaPathWith
  dsimp only
  split
  · rfl
  · split
    · rfl
    · dsimp only
      cases hentry : st.pathCache.find table with
      | none => exact find_remove_name hentry _
      | some entry => exact congrArg (Slots.find · table) (Slots.remove_modify_self ..)

theorem find_remove_buildTablePathWith (probe : Path → Bool) (st : Storage) (table : CStr) :
    ((buildTablePathWith probe st table).2.pathCache.remove table).find table =
      (st.pathCache.remove table).find table := by
  unfold buildTablePathWith
  dsimp only
  split
  · rfl
  · split
    · rfl
    · dsimp only
      cases hentry : st.pathCache.find table with
      | none => exact find_remove_name hentry _
      | some entry => exact congrArg (Slots.find · table) (Slots.remove_modify_self ..)

/-- Whatever the path cache knew about the table, a call forgets what it has asked itself. -/
theorem find_remove_createPaths (faults : CreateFaults) (st : Storage) (table : CStr) :
    ((createPaths faults st table).2.pathCache.remove table).find table =
      (st.pathCache.remove table).find table := by
  unfold createPaths
  set probe : Path → Bool := fun path => st.pathExists path && !faults.probe path
  have hs := find_remove_buildSchemaPathWith probe st table
  dsimp only
  rcases hbs : buildSchemaPathWith probe st table with ⟨_ | sp, st₁⟩ <;> rw [hbs] at hs
  · exact hs
  have ht := find_remove_buildTablePathWith probe st₁ table
  dsimp only
  rcases hbt : buildTablePathWith probe st₁ table with ⟨_ | path, st₂⟩ <;> rw [hbt] at ht <;>
    exact ht.trans hs

/-! ## Sound and safe calls -/

/-- The columns that a statement declares. -/
def createdColumns (text : CStr) : List (CStr × CStr) := declaredColumns (tokenize text).tail

/-- The rows of the one file, read with so many cells, are among those that are read from the
other. -/
def StillLoad (old new : CStr) (width : ℕ) : Prop :=
  ∃ held rows, loadTableRows old width = some held ∧ loadTableRows new width = some rows ∧
    held.Sublist rows

/-- On `-1` every schema file is as before. On `0` the schema that the next statement finds is read
as the declared columns, and the rows that were found before still load with as many cells. -/
def CreateSound (st : Storage) (table : CStr) (declared : List (CStr × CStr)) :
    Status × Storage → Prop
  | (.error _, st') => ∀ place name, st'.files (schemaPath place name) = st.files (schemaPath place name)
  | (.ok (), st') => ∃ sp₀ path₀ sp path schema,
      tablePaths st table = some (sp₀, path₀) ∧ tablePaths st' table = some (sp, path) ∧
      loadSchema st' sp = some schema ∧ List.Forall₂ Declares declared schema ∧
      StillLoad ((st.files path₀).getD []) ((st'.files path).getD []) schema.length

/-- The call fails once it has found its paths. -/
def CreateFails (faults : CreateFaults) (declared : List (CStr × CStr)) : Prop :=
  faults.openSchema ∨ schemaText faults.print (declared.map colDefText) 0 [] = none ∨
    faults.closeSchema ∨ faults.openTable ∨ faults.closeTable

/-- What a failed call leaves of the schema file. -/
def leftSchema (faults : CreateFaults) (st : Storage) (sp : Path)
    (declared : List (CStr × CStr)) : Option CStr :=
  if faults.removeSchema then
    if faults.openSchema then st.files sp
    else match schemaText faults.print (declared.map colDefText) 0 [] with
      | none => faults.leftover
      | some text => if faults.closeSchema then faults.leftover else some text
  else none

/-- What the next statement asks about the table: the two files are there, and what the path cache
knew is gone. -/
def createLookup (st : Storage) (table : CStr) (sp path : Path) : Storage :=
  { st with
    files := fun p => if p = sp ∨ p = path then some ((st.files p).getD []) else st.files p
    pathCache := st.pathCache.remove table }

/-- The next statement finds the schema that is written (names are clean and types are valid), or
another one that says the same; and the rows that were found before are among those of the file that
it finds. -/
def ReadsBack (st : Storage) (table : CStr) (declared : List (CStr × CStr)) (sp path : Path) : Prop :=
  ∃ sp₀ path₀ sp' path', tablePaths st table = some (sp₀, path₀) ∧
    tablePaths (createLookup st table sp path) table = some (sp', path') ∧
    (if sp' = sp then ∀ d ∈ declared, CleanName d.1 ∧ (parseColumnType d.2).isSome
      else ∃ schema, loadSchema st sp' = some schema ∧ List.Forall₂ Declares declared schema) ∧
    StillLoad ((st.files path₀).getD []) ((st.files path').getD []) declared.length

/-- A safe call: where it fails there was no schema file (or what cannot be removed
happens to be as before); where it succeeds, what it has written is found and read. -/
def CreateSafe (faults : CreateFaults) (st : Storage) (table : CStr)
    (declared : List (CStr × CStr)) : Prop :=
  ∀ sp path, table ≠ [] → declared ≠ [] → faults.mkdir = false →
    (createPaths faults st table).1 = some (sp, path) →
      (CreateFails faults declared → leftSchema faults st sp declared = st.files sp) ∧
      (¬ CreateFails faults declared → ReadsBack st table declared sp path)

instance (faults : CreateFaults) (declared : List (CStr × CStr)) :
    Decidable (CreateFails faults declared) := inferInstanceAs (Decidable (_ ∨ _))

theorem createCleanup_spec {faults : CreateFaults} {st st₀ : Storage} {sp path : Path}
    (left : Option CStr) (hother : ∀ p, p ≠ path → p ≠ sp → st.files p = st₀.files p) :
    (createCleanup faults st sp left).1 = .error .failed ∧
      (∀ p, p ≠ path → p ≠ sp → (createCleanup faults st sp left).2.files p = st₀.files p) ∧
        (createCleanup faults st sp left).2.files sp =
          if faults.removeSchema then left else none := by
  refine ⟨rfl, fun p hp hp' => ?_, Function.update_self ..⟩
  rw [← hother p hp hp']
  exact Function.update_of_ne hp' _ _

/-- A call that fails touches the two files only. -/
theorem writeSchema_of_fails {faults : CreateFaults} (st : Storage) (sp path : Path)
    {declared : List (CStr × CStr)} (h : CreateFails faults declared) :
    (writeSchema faults st sp path (declared.map colDefText)).1 = .error .failed ∧
      (∀ p, p ≠ path → p ≠ sp →
        (writeSchema faults st sp path (declared.map colDefText)).2.files p = st.files p) ∧
      (writeSchema faults st sp path (declared.map colDefText)).2.files sp =
        leftSchema faults st sp declared := by
  unfold writeSchema leftSchema
  by_cases hopen : faults.openSchema = true
  · simp only [hopen, if_true]
    exact createCleanup_spec _ fun _ _ _ => rfl
  simp only [hopen, Bool.false_eq_true, if_false]
  cases htext : schemaText faults.print (declared.map colDefText) 0 [] with
  | none => exact createCleanup_spec _ fun _ _ _ => rfl
  | some text =>
    dsimp only
    by_cases hclose : faults.closeSchema = true
    · simp only [hclose, if_true]
      exact createCleanup_spec _ fun _ _ _ => rfl
    simp only [hclose, Bool.false_eq_true, if_false]
    by_cases htable : faults.openTable = true
    · simp only [htable, if_true]
      exact createCleanup_spec _ fun p _ hp => Function.update_of_ne hp _ _
    simp only [htable, Bool.false_eq_true, if_false]
    have hlast : faults.closeTable = true := by
      rcases h with h | h | h | h | h
      · exact absurd h hopen
      · rw [htext] at h
        exact absurd h (by simp)
      · exact absurd h hclose
      · exact absurd h htable
      · exact h
    simp only [hlast, if_true]
    refine createCleanup_spec _ fun p hp hp' => ?_
    rw [Storage.setFile_files, Function.update_of_ne hp]
    exact Function.update_of_ne hp' _ _

/-- A call that succeeds has written every line and opened the file of the table. -/
theorem writeSchema_eq_of_not_fails {faults : CreateFaults} (st : Storage) (sp path : Path)
    {declared : List (CStr × CStr)} (h : ¬ CreateFails faults declared) :
    ∃ text, schemaText faults.print (declared.map colDefText) 0 [] = some text ∧
      writeSchema faults st sp path (declared.map colDefText) =
        (.ok (), (st.setFile sp (some text)).setFile path
          (some (((st.setFile sp (some text)).files path).getD []))) := by
  simp only [CreateFails, not_or] at h
  obtain ⟨hopen, htext, hclose, htable, hlast⟩ := h
  obtain ⟨text, htext⟩ := Option.ne_none_iff_exists'.mp htext
  refine ⟨text, htext, ?_⟩
  unfold writeSchema
  simp only [hopen, htext, hclose, htable, hlast, Bool.false_eq_true, if_false]

theorem colDefs_of_create {mem : Uninit} {text : CStr} {sql : ParsedSQL}
    (hparse : parseSql mem text = some sql) (htype : sql.type = .create) :
    sql.colDefs = (createdColumns text).map colDefText := by
  rw [eq_parseCreate_of_type hparse htype]
  unfold parseCreate createdColumns
  dsimp only
  split
  · rename_i h
    simp only [declaredColumns, h, parsedNew, List.map_nil]
  · rename_i h
    simp only [declaredColumns, h, parsedNew, List.map_nil]
  · rfl

/-- A call that fails is sound if what it leaves of the schema file is what was there. -/
theorem sound_iff_of_fails {faults : CreateFaults} {declared : List (CStr × CStr)} {sp path : Path}
    (st st₁ : Storage) (hfiles : st₁.files = st.files) (hsp : ∃ place name, sp = schemaPath place name)
    (hpath : ∃ place name, path = tablePath place name) (hfails : CreateFails faults declared) :
    CreateSound st table declared (writeSchema faults st₁ sp path (declared.map colDefText)) ↔
      leftSchema faults st sp declared = st.files sp := by
  obtain ⟨place, name, rfl⟩ := hsp
  obtain ⟨place', name', rfl⟩ := hpath
  have hleft : leftSchema faults st₁ (schemaPath place name) declared =
      leftSchema faults st (schemaPath place name) declared := by
    unfold leftSchema
    rw [hfiles]
  obtain ⟨hstatus, hother, hkept⟩ :=
    writeSchema_of_fails st₁ (schemaPath place name) (tablePath place' name') hfails
  rcases hres : writeSchema faults st₁ (schemaPath place name) (tablePath place' name')
    (declared.map colDefText) with ⟨status, st'⟩
  rw [hres] at hstatus hother hkept
  obtain rfl : status = .error .failed := hstatus
  rw [hleft] at hkept
  dsimp only at hkept
  rw [← hkept]
  constructor
  · exact fun h => h place name
  · intro h place₁ name₁
    by_cases heq : schemaPath place₁ name₁ = schemaPath place name
    · rw [heq, h]
    · rw [← hfiles]
      exact hother _ (schemaPath_ne_tablePath place₁ place' name₁ name') heq

/-- A call that succeeds is sound if the next statement reads back what it has written. -/
theorem sound_iff_of_not_fails {faults : CreateFaults} {declared : List (CStr × CStr)}
    {sp path : Path} (st st₁ : Storage) (hfiles : st₁.files = st.files)
    (hcache : st₁.pathCache.find table = (st.pathCache.remove table).find table)
    (hsp : ∃ place name, sp = schemaPath place name)
    (hpath : ∃ place name, path = tablePath place name) (hd : declared ≠ [])
    (hfails : ¬ CreateFails faults declared) :
    CreateSound st table declared (writeSchema faults st₁ sp path (declared.map colDefText)) ↔
      ReadsBack st table declared sp path := by
  have hne : ∀ {sp path}, (∃ place name, sp = schemaPath place name) →
      (∃ place name, path = tablePath place name) → sp ≠ path := by
    rintro _ _ ⟨place, name, rfl⟩ ⟨place', name', rfl⟩
    exact schemaPath_ne_tablePath place place' name name'
  obtain ⟨out, hout, hres⟩ := writeSchema_eq_of_not_fails st₁ sp path hfails
  rw [hres]
  set st' := (st₁.setFile sp (some out)).setFile path
    (some (((st₁.setFile sp (some out)).files path).getD []))
  have hother : ∀ p, p ≠ sp → p ≠ path → st'.files p = st.files p := by
    intro p hp hp'
    rw [← hfiles]
    exact (Function.update_of_ne hp' ..).trans (Function.update_of_ne hp ..)
  have hschema : st'.files sp = some out :=
    (Function.update_of_ne (hne hsp hpath) ..).trans (Function.update_self ..)
  have hkept : st'.files path = some ((st₁.files path).getD []) := by
    refine (Function.update_self ..).trans ?_
    rw [Storage.setFile_files, Function.update_of_ne (hne hsp hpath).symm]
  have hrows : ∀ {p}, (∃ place name, p = tablePath place name) →
      (st'.files p).getD [] = (st.files p).getD [] := by
    intro p hp
    by_cases heq : p = path
    · rw [heq, ← hfiles, hkept]
      rfl
    · rw [hother p (hne hsp hp).symm heq]
  have hlookup : tablePaths st' table = tablePaths (createLookup st table sp path) table := by
    refine tablePaths_congr (funext fun p => ?_) hcache
    unfold Storage.pathExists createLookup
    dsimp only
    by_cases hp : p = sp
    · rw [hp, hschema, if_pos (Or.inl rfl)]
      rfl
    by_cases hp' : p = path
    · rw [hp', hkept, if_pos (Or.inr rfl)]
      rfl
    · rw [if_neg (not_or.mpr ⟨hp, hp'⟩), hother p hp hp']
  have hback : (∃ schema, loadSchema st' sp = some schema ∧ List.Forall₂ Declares declared schema) ↔
      ∀ d ∈ declared, CleanName d.1 ∧ (parseColumnType d.2).isSome := by
    obtain ⟨ps, hps, rfl⟩ := schemaText_spec hout
    rw [List.forall₂_map_left_iff] at hps
    rw [← parseSchema_schemaLine_iff hd hps, loadSchema, hschema]
    rfl
  unfold ReadsBack
  rw [← hlookup, ← hback]
  constructor
  · rintro ⟨sp₀, path₀, sp', path', schema, hbefore, hafter, hread, hdecl, hload⟩
    refine ⟨sp₀, path₀, sp', path', hbefore, hafter, ?_, ?_⟩
    · split_ifs with heq
      · exact ⟨schema, heq ▸ hread, hdecl⟩
      · refine ⟨schema, ?_, hdecl⟩
        rw [loadSchema, ← hother sp' heq (hne (tablePaths_spec hafter).1 hpath)]
        exact hread
    · rw [← hrows (tablePaths_spec hafter).2, hdecl.length_eq]
      exact hload
  · rintro ⟨sp₀, path₀, sp', path', hbefore, hafter, hread, hload⟩
    obtain ⟨schema, hread, hdecl⟩ : ∃ schema, loadSchema st' sp' = some schema ∧
        List.Forall₂ Declares declared schema := by
      split_ifs at hread with heq
      · exact heq ▸ hread
      · rwa [loadSchema, hother sp' heq (hne (tablePaths_spec hafter).1 hpath)]
    refine ⟨sp₀, path₀, sp', path', schema, hbefore, hafter, hread, hdecl, ?_⟩
    rw [hrows (tablePaths_spec hafter).2, ← hdecl.length_eq]
    exact hload

/-- **A CREATE does what it says exactly when it is safe.** -/
theorem storageCreate_sound_iff (faults : CreateFaults) (st : Storage) {mem : Uninit} {text : CStr}
    {sql : ParsedSQL} (hparse : parseSql mem text = some sql) (htype : sql.type = .create) :
    CreateSound st sql.table (createdColumns text)
        (storageCreateWith faults st sql.table sql.colDefs) ↔
      CreateSafe faults st sql.table (createdColumns text) := by
  rw [colDefs_of_create hparse htype]
  set declared := createdColumns text
  set table := sql.table
  unfold storageCreateWith
  by_cases hargs : table = [] ∨ declared.map colDefText = [] ∨ faults.mkdir = true
  · rw [if_pos hargs]
    refine iff_of_true (fun _ _ => rfl) fun sp path ht hd hmk => ?_
    simp [ht, hd, hmk] at hargs
  rw [if_neg hargs]
  simp only [not_or, List.map_eq_nil_iff, Bool.not_eq_true] at hargs
  obtain ⟨ht, hd, hmk⟩ := hargs
  have hsafe : CreateSafe faults st table declared ↔ ∀ sp path,
      (createPaths faults st table).1 = some (sp, path) →
        (CreateFails faults declared → leftSchema faults st sp declared = st.files sp) ∧
        (¬ CreateFails faults declared → ReadsBack st table declared sp path) :=
    ⟨fun h sp path => h sp path ht hd hmk, fun h sp path _ _ _ => h sp path⟩
  rw [hsafe]
  obtain ⟨⟨cache, hsnd⟩, hfst⟩ := createPaths_spec faults st table
  have hforgets := find_remove_createPaths faults st table
  rcases hpaths : createPaths faults st table with ⟨_ | ⟨sp, path⟩, st₁⟩ <;>
    rw [hpaths] at hsnd hfst hforgets <;> subst hsnd
  · exact iff_of_true (fun _ _ => rfl) (by simp)
  obtain ⟨hsp, hpath⟩ := hfst rfl
  have hone : (∀ sp' path', some (sp, path) = some (sp', path') →
      (CreateFails faults declared → leftSchema faults st sp' declared = st.files sp') ∧
        (¬ CreateFails faults declared → ReadsBack st table declared sp' path')) ↔
      (CreateFails faults declared → leftSchema faults st sp declared = st.files sp) ∧
        (¬ CreateFails faults declared → ReadsBack st table declared sp path) := by
    refine ⟨fun h => h sp path rfl, fun h sp' path' heq => ?_⟩
    obtain ⟨rfl, rfl⟩ := Prod.mk.inj (Option.some.inj heq)
    exact h
  dsimp only
  rw [hone]
  set st₁ := createInvalidate { st with pathCache := cache } table sp path
  by_cases hfails : CreateFails faults declared
  · rw [sound_iff_of_fails st st₁ rfl hsp hpath hfails]
    simp [hfails]
  · rw [sound_iff_of_not_fails st st₁ rfl hforgets hsp hpath hd hfails]
    simp [hfails]

theorem storageCreate_two_columns :
    CreateSound (.start fun _ => none) "t".toList
      [("id".toList, "INT".toList), ("name".toList, "VARCHAR".toList)]
      (storageCreate (.start fun _ => none) "t".toList createStatement.colDefs) := by
  have hsound := storageCreate_sound_iff .none (.start fun _ => none)
    (show parseSql .zero "CREATE TABLE t (id INT, name VARCHAR);".toList = some createStatement by
      decide +kernel) rfl
  have hcolumns : createdColumns "CREATE TABLE t (id INT, name VARCHAR);".toList =
      [("id".toList, "INT".toList), ("name".toList, "VARCHAR".toList)] := by decide +kernel
  rw [hcolumns] at hsound
  refine hsound.mpr fun sp path _ _ _ hpaths => ⟨fun hfails => ?_, fun _ => ?_⟩
  · exact absurd hfails (by decide +kernel)
  have hcreate : (createPaths .none (.start fun _ => none) "t".toList).1 =
      some (schemaPath .nested "t".toList, tablePath .nested "t".toList) := by decide +kernel
  obtain ⟨rfl, rfl⟩ := Prod.mk.inj (Option.some.inj (hcreate.symm.trans hpaths))
  refine ⟨schemaPath .nested "t".toList, tablePath .nested "t".toList, schemaPath .nested "t".toList,
    tablePath .nested "t".toList, by decide +kernel, by decide +kernel, ?_, [], [], rfl, rfl, .slnil⟩
  rw [if_pos rfl]
  decide +kernel

/-- Rows in `data` without a schema are not found any more behind a CREATE. -/
example :
    let st : Storage :=
      .start fun path => if path = tablePath .legacy "t".toList then some "1\n".toList else none
    let st' := (storageCreate st "t".toList ["id INT".toList]).2
    tablePaths st "t".toList = some (schemaPath .nested "t".toList, tablePath .legacy "t".toList) ∧
      tablePaths st' "t".toList =
        some (schemaPath .nested "t".toList, tablePath .nested "t".toList) := by
  decide +kernel

/-- A process on a table `t (id INT)`. -/
def declaredTable : Storage :=
  .start fun path => if path = schemaPath .nested "t".toList then some "id,INT\n".toList else none

/-- The definition of a column without a name is refused when the schema file is gone. -/
theorem storageCreate_no_name :
    (parseSql .zero "CREATE TABLE t ('' INT);".toList).map (·.colDefs) = some [" INT".toList] ∧
      (storageCreate declaredTable "t".toList [" INT".toList]).1 = .error .failed ∧
      ¬ CreateSound declaredTable "t".toList
        (createdColumns "CREATE TABLE t ('' INT);".toList)
        (storageCreate declaredTable "t".toList [" INT".toList]) := by
  have hstatus : (storageCreate declaredTable "t".toList [" INT".toList]).1 = .error .failed := by
    decide +kernel
  have hgone : (storageCreate declaredTable "t".toList [" INT".toList]).2.files
      (schemaPath .nested "t".toList) = none := by decide +kernel
  have hthere : declaredTable.files (schemaPath .nested "t".toList) ≠ none := by decide +kernel
  refine ⟨by decide +kernel, hstatus, ?_⟩
  rcases hres : storageCreate declaredTable "t".toList [" INT".toList] with ⟨status, st'⟩
  rw [hres] at hstatus hgone
  obtain rfl : status = .error .failed := hstatus
  exact fun h => hthere ((h _ _).symm.trans hgone)

end MiniSql

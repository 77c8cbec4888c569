import MiniSql.Storage.Insert

/-!
# What a failed and what a successful INSERT leave behind

Every file operation succeeds here. A row that is refused before it is appended leaves file,
tree and counters as they were, with one exception: the automatic id may have made the
counters start over. A row whose own id cannot be read is refused after it has been appended.

## Main results

* `storageInsert_atomic_iff` — the exact condition under which `storage_insert` is all or
  nothing.
-/

namespace MiniSql
open CText

/-- The records of the file at a path, as long as it can be read to its end. -/
def Storage.fileRecords (st : Storage) (path : Path) : Option (List CStr) :=
  MiniSql.fileRecords ((st.files path).getD [])

/-- All or nothing: on `-1` the files, the tree and the counters of the table are as before,
on `0` the table's file has one more record at its end. -/
def AllOrNothing (st : Storage) (table : CStr) : Status × Storage → Prop
  | (.error .failed, st') =>
    st'.files = st.files ∧ st'.registry.find table = st.registry.find table ∧
      ∀ m, st.metaCache.find table = some m → st'.metaCache.find table = some m
  | (.ok (), st') =>
    ∃ path schema records record, (openTable st table).1 = some (path, schema) ∧
      st.fileRecords path = some records ∧ st'.fileRecords path = some (records ++ [record])
  | (.error .overread, _) => True

/-- The statement names the `id` itself, or leaves the columns out. -/
def GivesId (columns values : List CStr) : Prop :=
  columns = [] ∨ userHasId values.length columns = .ok true

/-- The row can be added to the file as a record of its own. -/
def TakesRow (st : Storage) (path : Path) (row : Row) : Prop :=
  ¬ st.Lost path ∧ (csvRecords ((st.files path).getD [])).2 = true ∧
    Terminated ((st.files path).getD []) (writeCsvRow row)

/-- The counters count rows of a file that is gone or empty, with no handle open on it. -/
def StaleCounters (st : Storage) (table : CStr) (path : Path) : Prop :=
  ∃ m, st.metaCache.find table = some m ∧ 0 < m.nextRowIdx ∧ path ∉ st.appendFp ∧
    (st.files path).getD [] = []

/-- When `storage_insert` is all or nothing: a row that is appended has a readable id and a
file that ends a line, and no counters start over for a row that is then refused. -/
def InsertSafe (st : Storage) (table : CStr) (columns values : List CStr) : Prop :=
  ∀ path schema, table ≠ [] → values ≠ [] → (openTable st table).1 = some (path, schema) →
    match findSchemaIndex schema "id".toList with
    | none => ∀ row, buildRowInSchemaOrder schema columns values = .ok row → TakesRow st path row
    | some idCol =>
      (GivesId columns values → ∀ row, buildRowInSchemaOrder schema columns values = .ok row →
        if explicitId (row[idCol]?.getD []) = none then st.Lost path else TakesRow st path row) ∧
      (columns ≠ [] → userHasId values.length columns = .ok false →
        ∀ id, (nextAutoId (ensureMeta (openTable st table).2 table path idCol) table path idCol).1 =
            some id →
          match buildRowInSchemaOrder schema ("id".toList :: columns) (intText id :: values) with
          | .ok row => TakesRow st path row
          | .error .failed => ¬ StaleCounters st table path
          | .error _ => True)

/-! ## The parts of the function -/

theorem openTable_snd (st : Storage) (table : CStr) :
    ∃ paths schemas, (openTable st table).2 =
      { st with pathCache := paths, schemaCache := schemas } := by
  unfold openTable buildSchemaPath
  obtain ⟨c₁, h₁⟩ := buildSchemaPathWith_snd st.pathExists st table
  rcases hs : buildSchemaPathWith st.pathExists st table with ⟨_ | sp, st₁⟩ <;> rw [hs] at h₁ <;>
    subst h₁
  · exact ⟨_, _, rfl⟩
  dsimp only
  unfold buildTablePath
  obtain ⟨c₂, h₂⟩ := buildTablePathWith_snd (Storage.pathExists { st with pathCache := c₁ })
    { st with pathCache := c₁ } table
  rcases ht : buildTablePathWith (Storage.pathExists { st with pathCache := c₁ })
    { st with pathCache := c₁ } table with ⟨_ | path, st₂⟩ <;> rw [ht] at h₂ <;> subst h₂
  · exact ⟨_, _, rfl⟩
  dsimp only
  obtain ⟨c₃, h₃⟩ := schemaCacheGet_snd { st with pathCache := c₂ } sp
  rcases hc : schemaCacheGet { st with pathCache := c₂ } sp with ⟨_ | schema, st₃⟩ <;>
    rw [hc] at h₃ <;> subst h₃ <;> exact ⟨_, _, rfl⟩

theorem ensureMeta_snd (st : Storage) (table : CStr) (path : Path) (idCol : ℕ) :
    ∃ cache, ensureMeta st table path idCol = { st with metaCache := cache } ∧
      ∀ m, st.metaCache.find table = some m → cache.find table = some m := by
  unfold ensureMeta
  split
  · exact ⟨_, rfl, fun m h => h⟩
  · rename_i hnone
    refine ⟨_, rfl, fun m h => ?_⟩
    rw [hnone] at h
    exact absurd h (by simp)

/-- Looking the counter up: entries stay, except stale ones, which start over. -/
theorem nextAutoId_snd (st : Storage) (table : CStr) (path : Path) (idCol : ℕ) :
    ∃ cache, (nextAutoId st table path idCol).2 = { st with metaCache := cache } ∧
      ∀ m, st.metaCache.find table = some m → (nextAutoId st table path idCol).1 ≠ none ∧
        (StaleCounters st table path → cache.find table = some ⟨1, 0⟩) ∧
          (¬ StaleCounters st table path → cache.find table = some m) := by
  have hrefresh : ∃ cache, refreshMeta st table path = { st with metaCache := cache } ∧
      ∀ m, st.metaCache.find table = some m →
        (StaleCounters st table path → cache.find table = some ⟨1, 0⟩) ∧
          (¬ StaleCounters st table path → cache.find table = some m) := by
    unfold refreshMeta
    cases hm : st.metaCache.find table with
    | none => exact ⟨_, rfl, by simp⟩
    | some m =>
      have hstale : StaleCounters st table path ↔ 0 < m.nextRowIdx ∧
          appendFpIsOpen st path = false ∧ (st.files path).getD [] = [] := by
        simp [StaleCounters, hm, appendFpIsOpen]
      by_cases h : StaleCounters st table path
      · refine ⟨_, if_pos (hstale.mp h), fun m' hm' => ⟨fun _ => ?_, fun hn => absurd h hn⟩⟩
        rw [Slots.find_modify_self, hm]
        rfl
      · exact ⟨st.metaCache, if_neg (hstale.not.mp h), fun m' hm' =>
          ⟨fun hs => absurd hs h, fun _ => by rw [hm, hm']⟩⟩
  obtain ⟨cache, href, hfind⟩ := hrefresh
  unfold nextAutoId
  rw [href]
  dsimp only
  split
  · exact ⟨cache, rfl, fun m hm => ⟨by simp, hfind m hm⟩⟩
  · rename_i hnone
    have hempty : ∀ m, st.metaCache.find table ≠ some m := by
      intro m hm
      by_cases hstale : StaleCounters st table path
      · rw [(hfind m hm).1 hstale] at hnone
        exact absurd hnone (by simp)
      · rw [(hfind m hm).2 hstale] at hnone
        exact absurd hnone (by simp)
    split
    · obtain ⟨cache', hens, -⟩ := ensureMeta_snd { st with metaCache := cache } table path idCol
      exact ⟨cache', hens, fun m hm => absurd hm (hempty m)⟩
    · exact ⟨cache, rfl, fun m hm => absurd hm (hempty m)⟩

theorem append_writeCsvRow_ne (content : CStr) (row : Row) : content ++ writeCsvRow row ≠ content := by
  intro h
  have := congrArg List.length h
  simp [writeCsvRow] at this

/-- The row was added as a record of its own. -/
theorem takesRow_iff {st : Storage} {path : Path} {row : Row} :
    TakesRow st path row ↔ ∃ records record, st.fileRecords path = some records ∧
      (appendCsvRow st path row).fileRecords path = some (records ++ [record]) := by
  by_cases hlost : st.Lost path
  · constructor
    · exact fun h => absurd hlost h.1
    · rintro ⟨records, record, h, h'⟩
      rw [Storage.fileRecords, appendCsvRow_files, if_pos hlost] at h'
      rw [Storage.fileRecords] at h
      rw [h, Option.some.injEq] at h'
      simp at h'
  · rw [TakesRow, ← fileRecords_append_iff]
    simp only [hlost, not_false_eq_true, true_and, Storage.fileRecords, appendCsvRow_files, if_false,
      Function.update_self, Option.getD_some]

/-- Nothing is written only where what is written is lost. -/
theorem appendCsvRow_files_eq_iff {st : Storage} {path : Path} {row : Row} :
    (appendCsvRow st path row).files = st.files ↔ st.Lost path := by
  rw [appendCsvRow_files]
  by_cases hlost : st.Lost path
  · simp [hlost]
  · simp only [hlost, if_false, iff_false]
    intro h
    have hpath := congrFun h path
    rw [Function.update_self] at hpath
    have := congrArg (·.getD []) hpath
    exact append_writeCsvRow_ne _ _ this

/-- The end of the function: what it returns, what it writes, and what it keeps on `-1`. -/
theorem finishInsert_spec (st : Storage) (table : CStr) (path : Path) (idCol : ℕ) (row : Row)
    (auto : Option ℤ) :
    match auto.or (explicitId (row[idCol]?.getD [])) with
    | none => finishInsert st table path idCol row auto =
        (.error .failed, appendCsvRow st path row)
    | some _ => ∃ registry cache, finishInsert st table path idCol row auto =
        (.ok (), { appendCsvRow st path row with registry := registry, metaCache := cache }) := by
  unfold finishInsert
  cases auto.or (explicitId (row[idCol]?.getD [])) with
  | none => rfl
  | some id =>
    obtain ⟨registry, hreg⟩ := indexRegistryGetOrCreate_snd (appendCsvRow st path row) table
    rcases hget : indexRegistryGetOrCreate (appendCsvRow st path row) table with ⟨_ | tree, st'⟩ <;>
      rw [hget] at hreg <;> subst hreg <;> dsimp only <;> rw [hget] <;> exact ⟨_, _, rfl⟩

/-! ## The whole function -/

section
variable {st : Storage} {table : CStr} {path : Path} {schema : List ColDef}
variable {paths : Slots CStr TablePaths} {schemas : Slots Path (List ColDef)}
variable {cache : Slots CStr Meta}

/-- A refusal before anything was written. -/
theorem allOrNothing_error
    (hkeep : ∀ m, st.metaCache.find table = some m → cache.find table = some m) (e : Fault) :
    AllOrNothing st table (.error e,
      { st with pathCache := paths, schemaCache := schemas, metaCache := cache }) := by
  cases e with
  | failed => exact ⟨rfl, rfl, hkeep⟩
  | overread => trivial

/-- A row that went to the file, with whatever the caches look like now. -/
theorem allOrNothing_ok (hopen : (openTable st table).1 = some (path, schema)) {st' : Storage}
    {row : Row} (hst' : st'.files = (appendCsvRow
      { st with pathCache := paths, schemaCache := schemas, metaCache := cache } path row).files) :
    AllOrNothing st table (.ok (), st') ↔ TakesRow st path row := by
  have happ : st'.fileRecords path = (appendCsvRow st path row).fileRecords path := by
    rw [Storage.fileRecords, Storage.fileRecords, hst', appendCsvRow_files, appendCsvRow_files]
    rfl
  rw [takesRow_iff, AllOrNothing, hopen]
  constructor
  · rintro ⟨path', schema', records, record, heq, h, h'⟩
    obtain ⟨rfl, rfl⟩ := Prod.mk.inj (Option.some.inj heq)
    exact ⟨records, record, h, happ ▸ h'⟩
  · rintro ⟨records, record, h, h'⟩
    exact ⟨path, schema, records, record, rfl, h, happ ▸ h'⟩

/-- The end of the function, for a row with an id of its own. -/
theorem allOrNothing_finishInsert (hopen : (openTable st table).1 = some (path, schema)) {row : Row}
    {idCol : ℕ} (hkeep : ∀ m, st.metaCache.find table = some m → cache.find table = some m) :
    AllOrNothing st table (finishInsert
        { st with pathCache := paths, schemaCache := schemas, metaCache := cache } table path idCol
        row none) ↔
      if explicitId (row[idCol]?.getD []) = none then st.Lost path else TakesRow st path row := by
  set st₁ : Storage :=
    { st with pathCache := paths, schemaCache := schemas, metaCache := cache } with hst₁
  have hspec := finishInsert_spec st₁ table path idCol row none
  rw [Option.none_or] at hspec
  cases hid : explicitId (row[idCol]?.getD []) with
  | none =>
    rw [hid] at hspec
    obtain ⟨files, fps, happ⟩ := appendCsvRow_snd st₁ path row
    have hlost : (appendCsvRow st₁ path row).files = st.files ↔ st.Lost path :=
      appendCsvRow_files_eq_iff
    rw [hspec, if_pos rfl, ← hlost]
    constructor
    · exact And.left
    · intro h
      refine ⟨h, ?_, fun m hm => ?_⟩ <;> rw [happ]
      exact hkeep m hm
  | some id =>
    rw [hid] at hspec
    obtain ⟨registry, cache', hfin⟩ := hspec
    rw [hfin, if_neg (by simp)]
    exact allOrNothing_ok hopen rfl

/-- The end of the function, for a row with an automatic id. -/
theorem allOrNothing_finishInsert_auto (hopen : (openTable st table).1 = some (path, schema))
    {row : Row} {idCol : ℕ} (id : ℤ) :
    AllOrNothing st table (finishInsert
        { st with pathCache := paths, schemaCache := schemas, metaCache := cache } table path idCol
        row (some id)) ↔ TakesRow st path row := by
  have hspec := finishInsert_spec
    { st with pathCache := paths, schemaCache := schemas, metaCache := cache } table path idCol row
    (some id)
  rw [Option.some_or] at hspec
  obtain ⟨registry, cache', hfin⟩ := hspec
  rw [hfin]
  exact allOrNothing_ok hopen rfl

end

/-- **`storage_insert` is all or nothing exactly for the safe statements.** -/
theorem storageInsert_atomic_iff (st : Storage) (table : CStr) (columns values : List CStr) :
    AllOrNothing st table (storageInsert st table columns values) ↔
      InsertSafe st table columns values := by
  unfold storageInsert InsertSafe
  by_cases hargs : table = [] ∨ values = []
  · rw [if_pos hargs]
    exact ⟨fun _ path schema ht hv => absurd hargs (not_or.mpr ⟨ht, hv⟩), fun _ =>
      allOrNothing_error (fun m hm => hm) .failed⟩
  rw [if_neg hargs]
  obtain ⟨ht, hv⟩ := not_or.mp hargs
  obtain ⟨paths, schemas, hsnd⟩ := openTable_snd st table
  rcases hopen : openTable st table with ⟨_ | ⟨path, schema⟩, st₁⟩
  · rw [hopen] at hsnd
    subst hsnd
    refine ⟨fun _ path schema _ _ h => absurd h (by simp), fun _ => ?_⟩
    exact allOrNothing_error (fun m hm => hm) .failed
  have hopen₁ : (openTable st table).1 = some (path, schema) := by rw [hopen]
  rw [hopen] at hsnd
  subst hsnd
  have hforall : ∀ {P : Path → List ColDef → Prop},
      (∀ path' schema', table ≠ [] → values ≠ [] →
        some (path, schema) = some (path', schema') → P path' schema') ↔ P path schema := by
    intro P
    constructor
    · exact fun h => h path schema ht hv rfl
    · rintro h path' schema' - - heq
      obtain ⟨rfl, rfl⟩ := Prod.mk.inj (Option.some.inj heq)
      exact h
  dsimp only
  rw [hforall]
  cases hidx : findSchemaIndex schema "id".toList with
  | none =>
    dsimp only
    cases hrow : buildRowInSchemaOrder schema columns values with
    | error e =>
      dsimp only
      refine ⟨fun _ row h => absurd h (by simp), fun _ => ?_⟩
      exact allOrNothing_error (fun m hm => hm) e
    | ok row =>
      dsimp only
      rw [allOrNothing_ok hopen₁ rfl]
      constructor
      · rintro h row' heq
        obtain rfl := Except.ok.inj heq
        exact h
      · exact fun h => h row rfl
  | some idCol =>
    dsimp only
    obtain ⟨cache, hens, hkeep⟩ := ensureMeta_snd
      { st with pathCache := paths, schemaCache := schemas } table path idCol
    change ∀ m, st.metaCache.find table = some m → cache.find table = some m at hkeep
    rw [insertWithId, hens]
    dsimp only
    cases hgives : if columns = [] then Except.ok true else userHasId values.length columns with
    | error e =>
      -- the search for the id ran past the columns
      have hno : ∀ b, userHasId values.length columns ≠ .ok b ∧ columns ≠ [] := by
        intro b
        by_cases hc : columns = []
        · rw [if_pos hc] at hgives
          exact absurd hgives (by simp)
        · rw [if_neg hc] at hgives
          exact ⟨by rw [hgives]; simp, hc⟩
      dsimp only
      refine ⟨fun _ => ⟨fun hgive => ?_, fun _ h => absurd h (hno false).1⟩, fun _ => ?_⟩
      · rcases hgive with hc | h
        · exact absurd hc (hno true).2
        · exact absurd h (hno true).1
      · exact allOrNothing_error hkeep e
    | ok gives =>
      cases gives with
      | true =>
        have hgive : GivesId columns values := by
          by_cases hc : columns = []
          · exact .inl hc
          · exact .inr (by rwa [if_neg hc] at hgives)
        have hauto : columns ≠ [] → userHasId values.length columns ≠ .ok false := by
          intro hc
          rw [if_neg hc] at hgives
          rw [hgives]
          simp
        dsimp only
        cases hrow : buildRowInSchemaOrder schema columns values with
        | error e =>
          dsimp only
          refine ⟨fun _ => ⟨fun _ row h => absurd h (by simp), fun hc h => absurd h (hauto hc)⟩,
            fun _ => ?_⟩
          exact allOrNothing_error hkeep e
        | ok row =>
          dsimp only
          rw [allOrNothing_finishInsert hopen₁ hkeep]
          constructor
          · refine fun h => ⟨fun _ row' heq => ?_, fun hc h => absurd h (hauto hc)⟩
            obtain rfl := Except.ok.inj heq
            exact h
          · exact fun h => h.1 hgive row rfl
      | false =>
        have hc : columns ≠ [] := by
          intro hc
          rw [if_pos hc] at hgives
          exact absurd hgives (by simp)
        rw [if_neg hc] at hgives
        have hgive : ¬ GivesId columns values := by
          rintro (h | h)
          · exact hc h
          · rw [hgives] at h
            exact absurd h (by simp)
        dsimp only
        obtain ⟨cache', hnext, hstale⟩ := nextAutoId_snd
          { st with pathCache := paths, schemaCache := schemas, metaCache := cache } table path idCol
        rcases hauto : nextAutoId
          { st with pathCache := paths, schemaCache := schemas, metaCache := cache } table path idCol
          with ⟨_ | id, st₂⟩ <;> rw [hauto] at hnext <;> subst hnext
        · -- no entry and no room for one
          refine ⟨fun _ => ⟨fun h => absurd h hgive, fun _ _ id h => absurd h (by simp)⟩,
            fun _ => allOrNothing_error (fun m hm => ?_) .failed⟩
          exact absurd (by rw [hauto]) (hstale m (hkeep m hm)).1
        · have hone : ∀ {P : ℤ → Prop}, (∀ id', some id = some id' → P id') ↔ P id := by
            intro P
            exact ⟨fun h => h id rfl, fun h id' heq => Option.some.inj heq ▸ h⟩
          simp only [hgive, hc, hgives, false_implies, true_and, ne_eq, not_false_eq_true,
            forall_const, hone]
          cases hrow : buildRowInSchemaOrder schema ("id".toList :: columns)
            (intText id :: values) with
          | ok row => exact allOrNothing_finishInsert_auto hopen₁ id
          | error e =>
            cases e with
            | overread => exact ⟨fun _ => trivial, fun _ => trivial⟩
            | failed =>
              dsimp only
              constructor
              · rintro ⟨-, -, hmeta⟩ ⟨m, hm, hpos, hfp, hfile⟩
                have hreset := (hstale m (hkeep m hm)).2.1 ⟨m, hkeep m hm, hpos, hfp, hfile⟩
                rw [hmeta m hm, Option.some.injEq] at hreset
                rw [hreset] at hpos
                exact absurd hpos (by decide)
              · intro hfresh
                refine allOrNothing_error (fun m hm => (hstale m (hkeep m hm)).2.2 ?_) .failed
                rintro ⟨m', hm', hpos, hfp, hfile⟩
                obtain rfl := Option.some.inj ((hkeep m hm).symm.trans hm')
                exact hfresh ⟨m, hm, hpos, hfp, hfile⟩

/-- A process on a table `t (id INT, name VARCHAR)` without rows. -/
def freshTable : Storage :=
  .start fun path =>
    if path = schemaPath .nested "t".toList then some "id,INT\nname,VARCHAR\n".toList else none

/-- The row of an id that is not a number is refused and stored all the same. -/
theorem storageInsert_bad_id :
    (storageInsert freshTable "t".toList ["id".toList, "name".toList]
        ["abc".toList, "x".toList]).1 = .error .failed ∧
      ¬ AllOrNothing freshTable "t".toList (storageInsert freshTable "t".toList
        ["id".toList, "name".toList] ["abc".toList, "x".toList]) := by
  have hstatus : (storageInsert freshTable "t".toList ["id".toList, "name".toList]
      ["abc".toList, "x".toList]).1 = .error .failed := by decide
  have hfile : (storageInsert freshTable "t".toList ["id".toList, "name".toList]
      ["abc".toList, "x".toList]).2.files (tablePath .nested "t".toList) ≠
        freshTable.files (tablePath .nested "t".toList) := by decide
  refine ⟨hstatus, ?_⟩
  rcases hres : storageInsert freshTable "t".toList ["id".toList, "name".toList]
    ["abc".toList, "x".toList] with ⟨status, st'⟩
  rw [hres] at hstatus hfile
  obtain rfl : status = .error .failed := hstatus
  exact fun h => hfile (congrFun h.1 _)

end MiniSql

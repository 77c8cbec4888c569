import MiniSql.Storage.Calls
import MiniSql.Storage.Scanners

/-!
# The counter of a table

The entry of a table in `s_meta` holds the id of the next row that comes without one. A scan of the
file makes it, an INSERT without an id moves it on, a DELETE or an UPDATE sets it to `0`, and nothing
looks at an id that an INSERT brings along.

## Main definitions

* `Ahead` — the counter is positive and above the ids of all rows.
* `Storage.counter` — the counter of the entry, or of the one that a scan will make.
* `InsertKeeps`, `IndexKeeps` — when an INSERT and a SELECT leave the counter ahead.

## Main results

* `maxId_le_iff` — the largest id of a file.
* `ahead_storageInsert`, `ahead_ensureIndex`, `rewriteTable_entry` — the entry after a statement.
-/

namespace MiniSql
open CText

/-- The entry of a table is ahead of its rows. Where there is none, the entry that a scan makes will
be, unless the largest id is the largest `int`. -/
def Ahead (idCol : ℕ) (rows : List Row) : Option Meta → Prop
  | some m => 0 < m.nextId ∧ m.nextId ≤ intMax ∧
      ∀ row ∈ rows, ∀ id ∈ rowId idCol row, id < m.nextId
  | none => ∀ row ∈ rows, ∀ id ∈ rowId idCol row, id < intMax

/-- The counter of a table with its file at a path: that of the entry, or of the entry that a scan
makes. -/
def counterAt (st : Storage) (table : CStr) (path : Path) (idCol : ℕ) : ℤ :=
  match st.metaCache.find table with
  | some m => m.nextId
  | none => (scannedMeta idCol (st.records path)).nextId

def Storage.counter (st : Storage) (table : CStr) (idCol : ℕ) : ℤ :=
  counterAt st table (st.tableFile table) idCol

/-! ## Scanning -/

section Scan

variable {idCol : ℕ} {records : List CStr}

theorem maxId_eq (idCol : ℕ) (records : List CStr) :
    maxId idCol records = records.foldl (fun m r => max m ((idOfRecord idCol r).getD m)) 0 := by
  unfold maxId
  congr
  funext m r
  cases idOfRecord idCol r with
  | none => exact (max_self m).symm
  | some id =>
    dsimp only
    rw [Option.getD_some]
    split <;> omega

theorem maxId_nonneg (idCol : ℕ) (records : List CStr) : 0 ≤ maxId idCol records := by
  have hfold : ∀ (records : List CStr) (m : ℤ), 0 ≤ m →
      0 ≤ records.foldl (fun m r => max m ((idOfRecord idCol r).getD m)) m := by
    intro records
    induction records with
    | nil => exact fun m hm => hm
    | cons record records ih =>
      intro m hm
      rw [List.foldl_cons]
      apply ih
      omega
  rw [maxId_eq]
  exact hfold records 0 le_rfl

/-- The largest id is the least bound of the ids that is not negative. -/
theorem maxId_le_iff {b : ℤ} (hb : 0 ≤ b) :
    maxId idCol records ≤ b ↔ ∀ record ∈ records, ∀ id ∈ idOfRecord idCol record, id ≤ b := by
  have hfold : ∀ (records : List CStr) (m : ℤ),
      records.foldl (fun m r => max m ((idOfRecord idCol r).getD m)) m ≤ b ↔
      m ≤ b ∧ ∀ record ∈ records, ∀ id ∈ idOfRecord idCol record, id ≤ b := by
    intro records
    induction records with
    | nil => simp
    | cons record records ih =>
      intro m
      rw [List.foldl_cons, ih, List.forall_mem_cons, ← and_assoc]
      apply and_congr_left
      intro _
      cases idOfRecord idCol record with
      | none => simp
      | some id => simp [Option.getD_some]
  rw [maxId_eq, hfold]
  exact and_iff_right hb

/-- The ids of the records are those of the rows. -/
theorem forall_idOfRecord_iff {width : ℕ} {rows : List Row} {P : ℤ → Prop}
    (h : records.mapM (parseRow width) = some rows) :
    (∀ record ∈ records, ∀ id ∈ idOfRecord idCol record, P id) ↔
      ∀ row ∈ rows, ∀ id ∈ rowId idCol row, P id := by
  induction records generalizing rows with
  | nil =>
    obtain rfl : [] = rows := by simpa using h
    simp
  | cons record records ih =>
    rw [List.mapM_cons] at h
    obtain ⟨row, hrow, h⟩ := Option.bind_eq_some_iff.mp h
    obtain ⟨rest, hrest, h⟩ := Option.bind_eq_some_iff.mp h
    obtain rfl : row :: rest = rows := Option.some.inj h
    rw [List.forall_mem_cons, List.forall_mem_cons, ih hrest, idOfRecord_of_parseRow hrow]

/-- **The entry that a scan makes is ahead of the rows.** -/
theorem ahead_scannedMeta {width : ℕ} {rows : List Row}
    (h : records.mapM (parseRow width) = some rows) (hnone : Ahead idCol rows none) :
    Ahead idCol rows (some (scannedMeta idCol records)) := by
  have hnonneg := maxId_nonneg idCol records
  have hroom : maxId idCol records ≤ intMax - 1 := by
    rw [maxId_le_iff (by decide), forall_idOfRecord_iff h]
    intro row hrow id hid
    have := hnone row hrow id hid
    omega
  have hnext : (scannedMeta idCol records).nextId = maxId idCol records + 1 :=
    toInt32_of_mem (by simp only [intMin]; omega) (by omega)
  refine ⟨by omega, by omega, ?_⟩
  have hle := (maxId_le_iff hnonneg).mp (le_refl (maxId idCol records))
  rw [forall_idOfRecord_iff h] at hle
  intro row hrow id hid
  have := hle row hrow id hid
  omega

end Scan

/-! ## The entry while a row is inserted -/

section Entry

variable {st : Storage} {table : CStr} {path : Path} {idCol width : ℕ} {rows : List Row}

/-- The records of a file that is loaded are its rows. A file that is missing has none. -/
theorem records_of_getD (hload : loadTableRows ((st.files path).getD []) width = some rows) :
    (st.records path).mapM (parseRow width) = some rows := by
  have hrecords : st.records path = (csvRecords ((st.files path).getD [])).1 := by
    unfold Storage.records
    cases st.files path <;> rfl
  rw [hrecords]
  exact (loadTableRows_eq_some.mp hload).2

/-- The new entry of a table, as long as there is room for it. -/
theorem ensureMeta_find (hshort : table.length ≤ nameMax) (path : Path) (idCol : ℕ) :
    (ensureMeta st table path idCol).metaCache.find table =
      match st.metaCache.find table with
      | some m => some m
      | none => if st.metaCache.length < metaCacheMax then
          some (scannedMeta idCol (st.records path)) else none := by
  unfold ensureMeta
  cases hfind : st.metaCache.find table with
  | some m => exact hfind
  | none =>
    dsimp only
    rw [List.take_of_length_le hshort]
    split
    · rename_i hroom
      exact Slots.find_add_self _ hroom hfind
    · rename_i hroom
      rw [Slots.add_of_full hroom, hfind]

theorem counterAt_ensureMeta (hshort : table.length ≤ nameMax) (path : Path) (idCol : ℕ) :
    counterAt (ensureMeta st table path idCol) table path idCol = counterAt st table path idCol := by
  obtain ⟨cache, hens, -⟩ := ensureMeta_snd st table path idCol
  have hfind := @ensureMeta_find st table hshort path idCol
  rw [hens] at hfind ⊢
  unfold counterAt
  dsimp only at hfind ⊢
  rw [hfind]
  cases st.metaCache.find table with
  | some m => rfl
  | none =>
    dsimp only
    by_cases hroom : st.metaCache.length < metaCacheMax
    · rw [if_pos hroom]
    · rw [if_neg hroom]
      rfl

theorem ahead_ensureMeta (hshort : table.length ≤ nameMax)
    (hload : loadTableRows ((st.files path).getD []) width = some rows)
    (h : Ahead idCol rows (st.metaCache.find table)) :
    Ahead idCol rows ((ensureMeta st table path idCol).metaCache.find table) := by
  rw [ensureMeta_find hshort]
  cases hfind : st.metaCache.find table with
  | some m => rwa [hfind] at h
  | none =>
    rw [hfind] at h
    dsimp only
    split
    · exact ahead_scannedMeta (records_of_getD hload) h
    · exact h

/-- **An automatic id is the counter of an entry that is ahead.** Where the counters start over the
table has no rows. -/
theorem nextAutoId_entry (hshort : table.length ≤ nameMax)
    (hload : loadTableRows ((st.files path).getD []) width = some rows)
    (h : Ahead idCol rows (st.metaCache.find table)) :
    Ahead idCol rows ((nextAutoId st table path idCol).2.metaCache.find table) ∧
      ∀ id, (nextAutoId st table path idCol).1 = some id →
        (id = 1 ∨ id = counterAt st table path idCol) ∧
          ∃ m, (nextAutoId st table path idCol).2.metaCache.find table = some m ∧ m.nextId = id := by
  unfold nextAutoId refreshMeta counterAt
  cases hfind : st.metaCache.find table with
  | none =>
    dsimp only
    rw [hfind]
    dsimp only
    split
    · rename_i hroom
      refine ⟨ahead_ensureMeta hshort hload h, fun id hid => ?_⟩
      obtain rfl := Option.some.inj hid
      refine ⟨.inr rfl, scannedMeta idCol (st.records path), ?_, rfl⟩
      rw [ensureMeta_find hshort, hfind]
      exact if_pos hroom
    · exact ⟨h, by simp⟩
  | some m =>
    rw [hfind] at h
    by_cases hstale : 0 < m.nextRowIdx ∧ appendFpIsOpen st path = false ∧
        (st.files path).getD [] = []
    · simp only [if_pos hstale, Slots.find_modify_self, hfind, Option.map_some]
      rw [hstale.2.2] at hload
      obtain rfl : [] = rows := by simpa [loadTableRows] using hload
      exact ⟨⟨Int.one_pos, by decide, by simp⟩,
        fun id hid => ⟨.inl (Option.some.inj hid).symm, _, rfl, Option.some.inj hid⟩⟩
    · simp only [if_neg hstale, hfind]
      exact ⟨h, fun id hid => ⟨.inr (Option.some.inj hid).symm, m, rfl, Option.some.inj hid⟩⟩

/-- An INSERT moves the counter on for an automatic id. -/
theorem finishInsert_entry (st : Storage) (table : CStr) (path : Path) (idCol : ℕ) (row : Row)
    (auto : Option ℤ) :
    (finishInsert st table path idCol row auto).2.metaCache.find table =
      match auto.or (explicitId (row[idCol]?.getD [])) with
      | none => st.metaCache.find table
      | some _ => (st.metaCache.find table).map fun m =>
          ⟨if auto.isSome then toInt32 (m.nextId + 1) else m.nextId, m.nextRowIdx + 1⟩ := by
  obtain ⟨files, fps, happ⟩ := appendCsvRow_snd st path row
  unfold finishInsert
  rw [happ]
  dsimp only
  cases auto.or (explicitId (row[idCol]?.getD [])) with
  | none => rfl
  | some id =>
    dsimp only
    obtain ⟨registry, hreg⟩ :=
      indexRegistryGetOrCreate_snd { st with files := files, appendFp := fps } table
    rcases hget : indexRegistryGetOrCreate { st with files := files, appendFp := fps } table with
      ⟨_ | tree, st₁⟩ <;> rw [hget] at hreg <;> subst hreg <;> exact Slots.find_modify_self ..

/-- The number of the next row does not matter. -/
theorem ahead_map {entry : Option Meta} {f : Meta → Meta} (hf : ∀ m, (f m).nextId = m.nextId) :
    Ahead idCol rows (entry.map f) ↔ Ahead idCol rows entry := by
  cases entry with
  | none => rfl
  | some m => simp only [Option.map_some, Ahead, hf]

/-- A row with an id below the counter. -/
theorem Ahead.append (h : Ahead idCol rows (st.metaCache.find table)) {row : Row}
    (hid : ∀ id ∈ rowId idCol row, id < counterAt st table path idCol) :
    Ahead idCol (rows ++ [row]) (st.metaCache.find table) := by
  unfold counterAt at hid
  cases hfind : st.metaCache.find table with
  | some m =>
    rw [hfind] at h hid
    obtain ⟨hpos, hmax, hlt⟩ := h
    refine ⟨hpos, hmax, fun row' hrow' => ?_⟩
    rcases List.mem_append.mp hrow' with hold | hnew
    · exact hlt row' hold
    · obtain rfl := List.mem_singleton.mp hnew
      exact hid
  | none =>
    rw [hfind] at h hid
    have hmax := (toInt32_mem (maxId idCol (st.records path) + 1)).2
    intro row' hrow' id hid'
    rcases List.mem_append.mp hrow' with hold | hnew
    · exact h row' hold id hid'
    · obtain rfl := List.mem_singleton.mp hnew
      exact lt_of_lt_of_le (hid id hid') hmax

/-- The counter moves on over a row that has taken its id. -/
theorem Ahead.next {m : Meta} (h : Ahead idCol rows (some m)) {row : Row} {n : ℕ}
    (hid : rowId idCol row = some m.nextId) (hmax : m.nextId < intMax) :
    Ahead idCol (rows ++ [row]) (some ⟨toInt32 (m.nextId + 1), n⟩) := by
  obtain ⟨hpos, -, hlt⟩ := h
  have hnext : toInt32 (m.nextId + 1) = m.nextId + 1 :=
    toInt32_of_mem (by simp only [intMin]; omega) (by omega)
  unfold Ahead
  dsimp only
  rw [hnext]
  refine ⟨by omega, by omega, fun row' hrow' id hid' => ?_⟩
  rcases List.mem_append.mp hrow' with hold | hnew
  · have := hlt row' hold id hid'
    omega
  · obtain rfl := List.mem_singleton.mp hnew
    rw [hid, Option.mem_some_iff] at hid'
    omega

end Entry

/-! ## Inserting -/

instance (columns values : List CStr) : Decidable (GivesId columns values) :=
  inferInstanceAs (Decidable (_ ∨ _))

/-- **An INSERT leaves the counter ahead**: the id that it brings along is below the counter, or there
is an `int` behind the counter. -/
def InsertKeeps (st : Storage) (table : CStr) (columns values : List CStr) : Prop :=
  ∀ schema ∈ st.tableSchema table, ∀ idCol ∈ findSchemaIndex schema "id".toList,
    ∀ row ∈ appendedRow st table columns values,
      if GivesId columns values then ∀ id ∈ rowId idCol row, id < st.counter table idCol
      else st.counter table idCol < intMax

section Insert

variable {st : Storage} {table : CStr} {schema : List ColDef} {idCol : ℕ} {rows : List Row}
variable {columns values : List CStr}

/-- The entry behind an INSERT is ahead of the rows, the new one included. -/
theorem ahead_storageInsert (hshort : table.length ≤ nameMax) (hc : st.Coherent table)
    (hschema : st.tableSchema table = some schema)
    (hidx : findSchemaIndex schema "id".toList = some idCol)
    (hload : loadTableRows ((st.content table).getD []) schema.length = some rows)
    (h : Ahead idCol rows (st.metaCache.find table)) (hkeeps : InsertKeeps st table columns values) :
    Ahead idCol (rows ++ (appendedRow st table columns values).toList)
      ((storageInsert st table columns values).2.metaCache.find table) := by
  have hkeep := hkeeps schema hschema idCol hidx
  unfold storageInsert appendedRow at *
  by_cases hargs : table = [] ∨ values = []
  · rw [if_pos hargs, if_pos hargs, Option.toList_none, List.append_nil]
    exact h
  rw [if_neg hargs, hschema, Option.bind_some] at hkeep ⊢
  rw [if_neg hargs]
  obtain ⟨paths, schemas, hopen, -⟩ := openTable_view hshort hc
  rw [hopen, hschema, Option.map_some]
  dsimp only
  set st₁ : Storage := { st with pathCache := paths, schemaCache := schemas } with hst₁
  have hauto : (nextAutoId (ensureMeta st₁ table (st.tableFile table) idCol) table
      (st.tableFile table) idCol).1 = st.autoId table idCol :=
    autoId_eq st paths schemas table (st.tableFile table) idCol
  have hcounter : counterAt (ensureMeta st₁ table (st.tableFile table) idCol) table
      (st.tableFile table) idCol = st.counter table idCol :=
    (counterAt_ensureMeta hshort _ _).trans rfl
  have hens := @ahead_ensureMeta st₁ table (st.tableFile table) idCol _ rows hshort hload h
  obtain ⟨cache, heq, -⟩ := ensureMeta_snd st₁ table (st.tableFile table) idCol
  unfold insertWithId insertedRow at *
  rw [hidx] at hkeep ⊢
  dsimp only at hkeep ⊢
  rw [heq] at hauto hcounter hens ⊢
  have hload₂ : loadTableRows ((({ st₁ with metaCache := cache } : Storage).files
    (st.tableFile table)).getD []) schema.length = some rows := hload
  rcases hgives : (if columns = [] then Except.ok true else userHasId values.length columns) with
    e | _ | _ <;> rw [hgives] at hkeep <;> dsimp only at hkeep ⊢
  · rw [Option.toList_none, List.append_nil]
    exact hens
  · have hgives' : ¬ GivesId columns values := by
      unfold GivesId
      split at hgives
      · exact absurd hgives (by simp)
      · simp [*]
    obtain ⟨hnext, hentry⟩ := nextAutoId_entry hshort hload₂ hens
    rcases hres : nextAutoId { st₁ with metaCache := cache } table (st.tableFile table) idCol with
      ⟨_ | id, st₂⟩ <;> rw [hres] at hauto hnext hentry <;> dsimp only at hauto hnext hentry ⊢ <;>
      rw [← hauto] at hkeep ⊢
    · rw [Option.bind_none, Option.toList_none, List.append_nil]
      exact hnext
    obtain ⟨hid, m, hm, rfl⟩ := hentry id rfl
    rw [Option.bind_some] at hkeep ⊢
    cases hrow : buildRowInSchemaOrder schema ("id".toList :: columns) (intText m.nextId :: values) with
    | error e =>
      rw [Except.toOption, Option.toList_none, List.append_nil]
      exact hnext
    | ok row =>
      rw [hrow] at hkeep
      have hmax := hkeep row rfl
      rw [if_neg hgives'] at hmax
      rw [finishInsert_entry, Option.some_or, hm]
      rw [hm] at hnext
      have hlt : m.nextId < intMax := by
        rcases hid with hone | hcount
        · rw [hone]
          decide
        · rw [hcount, hcounter]
          exact hmax
      have hpos := hnext.1
      have hcell := buildRow_autoId hidx ⟨by simp only [intMin]; omega, by omega⟩ hrow
      exact hnext.next hcell hlt
  · have hgives' : GivesId columns values := by
      unfold GivesId
      split at hgives
      · exact .inl ‹_›
      · exact .inr hgives
    cases hrow : buildRowInSchemaOrder schema columns values with
    | error e =>
      rw [Except.toOption, Option.toList_none, List.append_nil]
      exact hens
    | ok row =>
      rw [hrow] at hkeep
      have hlt := hkeep row rfl
      rw [if_pos hgives', ← hcounter] at hlt
      have hahead := hens.append hlt
      rw [finishInsert_entry, Option.none_or]
      cases explicitId (row[idCol]?.getD []) with
      | none => exact hahead
      | some id => exact (ahead_map (by simp)).mpr hahead

/-- **The id that an INSERT chooses is positive and above the ids of all rows.** -/
theorem fresh_storageInsert (hshort : table.length ≤ nameMax)
    (hschema : st.tableSchema table = some schema)
    (hidx : findSchemaIndex schema "id".toList = some idCol)
    (hload : loadTableRows ((st.content table).getD []) schema.length = some rows)
    (h : Ahead idCol rows (st.metaCache.find table)) (hgives : ¬ GivesId columns values) {row : Row}
    (hrow : appendedRow st table columns values = some row) :
    ∃ id, rowId idCol row = some id ∧ 0 < id ∧
      ∀ row' ∈ rows, ∀ id' ∈ rowId idCol row', id' < id := by
  obtain ⟨hne, hgives⟩ := not_or.mp hgives
  have hens := @ahead_ensureMeta st table (st.tableFile table) idCol _ rows hshort hload h
  obtain ⟨cache, heq, -⟩ := ensureMeta_snd st table (st.tableFile table) idCol
  have hload₂ : loadTableRows (((ensureMeta st table (st.tableFile table) idCol).files
      (st.tableFile table)).getD []) schema.length = some rows := by
    rw [heq]
    exact hload
  obtain ⟨hnext, hentry⟩ := nextAutoId_entry hshort hload₂ hens
  replace hrow := insertedRow_of_appended hschema hrow
  rw [insertedRow, hidx] at hrow
  dsimp only at hrow
  rw [if_neg hne] at hrow
  rcases hcols : userHasId values.length columns with e | _ | _ <;> rw [hcols] at hrow hgives <;>
    dsimp only at hrow
  · exact absurd hrow (by simp)
  · obtain ⟨id, hid, hbuilt⟩ := Option.bind_eq_some_iff.mp hrow
    obtain ⟨-, m, hm, rfl⟩ := hentry id hid
    rw [hm] at hnext
    obtain ⟨hpos, hmax, hlt⟩ := hnext
    cases hres : buildRowInSchemaOrder schema ("id".toList :: columns)
      (intText m.nextId :: values) with
    | error e =>
      rw [hres] at hbuilt
      exact absurd hbuilt (by simp [Except.toOption])
    | ok row' =>
      rw [hres] at hbuilt
      obtain rfl := Option.some.inj hbuilt
      exact ⟨m.nextId, buildRow_autoId hidx ⟨by simp only [intMin]; omega, hmax⟩ hres, hpos, hlt⟩
  · exact absurd rfl hgives

end Insert

/-! ## Deleting, updating and searching -/

section Others

variable {st : Storage} {table : CStr}

/-- **A DELETE or an UPDATE sets the counters of its table to `0`.** -/
theorem rewriteTable_entry (hshort : table.length ≤ nameMax) (hc : st.Coherent table)
    (plan : List ColDef → Option RowPlan) :
    (rewriteTable .none st table plan).2.metaCache.find table =
      if (rewrittenRows st table plan).isSome then (st.metaCache.find table).map fun _ => ⟨0, 0⟩
      else st.metaCache.find table := by
  obtain ⟨paths, hpaths, -⟩ := rewritePaths_view hshort hc
  set st₁ : Storage := { st with pathCache := paths } with hst₁
  have hload : loadSchema st₁ (st.schemaFile table) = st.tableSchema table := rfl
  unfold rewriteTable rewrittenRows
  rw [hpaths]
  dsimp only
  rw [if_neg (by simp [RewriteFaults.none]), hload]
  cases st.tableSchema table with
  | none => rfl
  | some schema =>
    rw [Option.bind_some]
    dsimp only
    cases plan schema with
    | none => rfl
    | some rowPlan =>
      rw [Option.bind_some]
      dsimp only
      have hrewritten : rewrittenFile .none st₁ (st.tableFile table) schema.length rowPlan =
          ((st.content table).bind fun file =>
            (loadTableRows file schema.length).bind (planRows rowPlan)).map
              fun kept => kept.flatMap writeCsvRow :=
        rewrittenFile_none st₁ (st.tableFile table) schema.length rowPlan
      unfold rewriteRows
      rw [hrewritten]
      cases (st.content table).bind fun file =>
        (loadTableRows file schema.length).bind (planRows rowPlan) with
      | none => rfl
      | some kept =>
        dsimp only [Option.map_some, replaceTableFile, RewriteFaults.none]
        obtain ⟨registry, hindex⟩ := rebuildIndexWith_snd false (invalidateMetaCache
          (((appendFpInvalidate st₁ (st.tableFile table)).setFile
            (tempPath (st.tablePlace table) table) none).setFile (st.tableFile table)
              (some (kept.flatMap writeCsvRow))) table) table (st.tableFile table)
          (findSchemaIndex schema "id".toList)
        simp only [Bool.false_eq_true, if_false]
        rw [hindex]
        exact Slots.find_modify_self ..

/-- The counters that `storage_ensure_index` sets, as long as there is room for an entry. -/
theorem putMeta_find (hshort : table.length ≤ nameMax) (m : Meta) :
    (putMeta st table m).metaCache.find table =
      if st.metaCache.find table = none ∧ ¬ st.metaCache.length < metaCacheMax then none
      else some m := by
  unfold putMeta
  cases hfind : st.metaCache.find table with
  | some m' =>
    rw [if_neg (by simp), Slots.find_modify_self, hfind]
    rfl
  | none =>
    dsimp only
    rw [List.take_of_length_le hshort]
    by_cases hroom : st.metaCache.length < metaCacheMax
    · rw [Slots.find_add_self _ hroom hfind, if_neg (by simp [hroom])]
    · rw [Slots.add_of_full hroom, hfind, if_pos ⟨rfl, hroom⟩]

theorem ahead_putMeta {idCol : ℕ} {rows : List Row} (st : Storage) (hshort : table.length ≤ nameMax)
    (h : Ahead idCol rows (st.metaCache.find table)) {m : Meta} (hm : Ahead idCol rows (some m)) :
    Ahead idCol rows ((putMeta st table m).metaCache.find table) := by
  rw [putMeta_find hshort]
  split
  · rename_i hfull
    rw [hfull.1] at h
    exact h
  · exact hm

/-- The largest id of the `.bin` file, and `0` when none is positive. -/
def binMaxId (schema : List ColDef) (idCol : ℕ) (bin : CStr) : ℤ :=
  (binRows (binRowSize schema) bin).foldl
    (fun m r => max m (binInt r (binRowSize (schema.take idCol)))) 0

/-- **The first SELECT leaves the counter ahead**: where there is a `.bin` file, its largest id is not
below an id of the table, and there is an `int` behind it. -/
def IndexKeeps (st : Storage) (table : CStr) : Prop :=
  table ∉ st.indexRebuilt → ∀ bin ∈ st.files (binPath table), ∀ schema ∈ st.tableSchema table,
    ∀ idCol ∈ findSchemaIndex schema "id".toList,
      ∀ rows ∈ loadTableRows ((st.content table).getD []) schema.length,
        binMaxId schema idCol bin < intMax ∧
          ∀ row ∈ rows, ∀ id ∈ rowId idCol row, id ≤ binMaxId schema idCol bin

theorem binMaxId_nonneg (schema : List ColDef) (idCol : ℕ) (bin : CStr) :
    0 ≤ binMaxId schema idCol bin := by
  have hfold : ∀ (rows : List CStr) (m : ℤ), 0 ≤ m →
      0 ≤ rows.foldl (fun m r => max m (binInt r (binRowSize (schema.take idCol)))) m := by
    intro rows
    induction rows with
    | nil => exact fun m hm => hm
    | cons r rows ih =>
      intro m hm
      rw [List.foldl_cons]
      apply ih
      omega
  exact hfold _ 0 le_rfl

/-- The entry behind the first SELECT is the one that a scan makes. -/
theorem ahead_ensureIndex {schema : List ColDef} {idCol : ℕ} {rows : List Row}
    (hshort : table.length ≤ nameMax) (hc : st.Coherent table)
    (hschema : st.tableSchema table = some schema)
    (hidx : findSchemaIndex schema "id".toList = some idCol)
    (hload : loadTableRows ((st.content table).getD []) schema.length = some rows)
    (h : Ahead idCol rows (st.metaCache.find table)) (hkeeps : IndexKeeps st table) :
    Ahead idCol rows ((ensureIndex st table).metaCache.find table) := by
  obtain ⟨paths, schemas, hopen, -⟩ := openTable_view hshort hc
  rw [ensureIndex_eq, hopen, hschema, Option.map_some]
  split
  · exact h
  rename_i hfresh
  obtain ⟨-, hfresh⟩ := not_or.mp hfresh
  dsimp only
  rw [hidx]
  dsimp only
  set st₁ : Storage := { st with pathCache := paths, schemaCache := schemas } with hst₁
  obtain ⟨registry, hsnd⟩ := indexRegistryGetOrCreate_snd st₁ table
  rcases hget : indexRegistryGetOrCreate st₁ table with ⟨_ | tree, st₂⟩ <;> rw [hget] at hsnd <;>
    subst hsnd <;> dsimp only
  · exact h
  have hmark : ∀ st : Storage, (markRebuilt st table).metaCache = st.metaCache := by
    intro st
    obtain ⟨rebuilt, hrebuilt⟩ := markRebuilt_snd st table
    rw [hrebuilt]
  unfold fillIndex
  dsimp only
  rw [if_pos (fitsPath_binPath hshort)]
  cases hbin : st.files (binPath table) with
  | some bin =>
    obtain ⟨hroom, hlt⟩ := hkeeps hfresh bin hbin schema hschema idCol hidx rows hload
    have hnonneg := binMaxId_nonneg schema idCol bin
    have hnext : toInt32 (binMaxId schema idCol bin + 1) = binMaxId schema idCol bin + 1 :=
      toInt32_of_mem (by simp only [intMin]; omega) (by omega)
    have hahead : Ahead idCol rows (some ⟨toInt32 (binMaxId schema idCol bin + 1),
        (binRows (binRowSize schema) bin).length⟩) := by
      unfold Ahead
      dsimp only
      rw [hnext]
      refine ⟨by omega, by omega, fun row hrow id hid => ?_⟩
      have := hlt row hrow id hid
      omega
    dsimp only
    rw [hmark]
    apply ahead_putMeta _ hshort
    · exact h
    · exact hahead
  | none =>
    dsimp only
    cases hfile : st.files (st.tableFile table) with
    | none =>
      dsimp only
      rw [hmark]
      exact h
    | some file =>
      dsimp only
      rw [hmark]
      apply ahead_putMeta _ hshort
      · exact h
      apply ahead_scannedMeta (records_of_getD hload)
      cases hfind : st.metaCache.find table with
      | none => rwa [hfind] at h
      | some m =>
        rw [hfind] at h
        obtain ⟨-, hmax, hlt⟩ := h
        intro row hrow id hid
        exact lt_of_lt_of_le (hlt row hrow id hid) hmax

end Others

end MiniSql

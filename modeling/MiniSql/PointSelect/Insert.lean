import MiniSql.PointSelect

/-!
# The row that an INSERT registers

An INSERT registers its row under the number that its entry in the meta cache counts, or under the
number of rows of the file where there is no entry.

## Main definitions

* `Storage.CountsRows` — the entry of a table counts its rows.
* `RowReads` — the id of a row is read to its end.

## Main results

* `storageInsert_tree` — the tree behind an INSERT.
-/

namespace MiniSql
open CText

/-- The entry of the table, if there is one, counts its rows. -/
def Storage.CountsRows (st : Storage) (table : CStr) (n : ℕ) : Prop :=
  ∀ m ∈ st.metaCache.find table, m.nextRowIdx = n

section Insert

variable {st : Storage} {table : CStr} {path : Path} {idCol : ℕ} {rows : List Row}

theorem indexRegistryGetOrCreate_fst (st : Storage) (table : CStr) :
    (indexRegistryGetOrCreate st table).1 =
      match st.registry.find table with
      | some tree => some tree
      | none => if registryMax ≤ st.registry.length ∨ 64 < table.length + 1 then none
          else some emptyTree := by
  unfold indexRegistryGetOrCreate
  cases st.registry.find table with
  | some tree => rfl
  | none =>
    dsimp only
    split <;> rfl

/-- The number that an INSERT registers its row under. -/
def nextRow (st : Storage) (table : CStr) (path : Path) : ℕ :=
  match st.metaCache.find table with
  | some m => m.nextRowIdx
  | none => countCsvRows st path

/-- The end of `storage_insert` registers the row under its id. -/
theorem finishInsert_tree (st : Storage) (table : CStr) (path : Path) (idCol : ℕ) (row : Row)
    (auto : Option ℤ) :
    (finishInsert st table path idCol row auto).2.indexRebuilt = st.indexRebuilt ∧
      (finishInsert st table path idCol row auto).2.registry.find table =
        match auto.or (explicitId (row[idCol]?.getD [])) with
        | none => st.registry.find table
        | some id => (indexRegistryGetOrCreate st table).1.map fun tree =>
            bptreeInsert tree id (nextRow st table path) := by
  obtain ⟨files, fps, happ⟩ := appendCsvRow_snd st path row
  unfold finishInsert
  rw [happ]
  dsimp only
  cases auto.or (explicitId (row[idCol]?.getD [])) with
  | none => exact ⟨rfl, rfl⟩
  | some id =>
    dsimp only
    obtain ⟨registry, hreg⟩ :=
      indexRegistryGetOrCreate_snd { st with files := files, appendFp := fps } table
    have hsame : (indexRegistryGetOrCreate { st with files := files, appendFp := fps } table).1 =
        (indexRegistryGetOrCreate st table).1 := by
      rw [indexRegistryGetOrCreate_fst, indexRegistryGetOrCreate_fst]
    rcases hget : indexRegistryGetOrCreate { st with files := files, appendFp := fps } table with
      ⟨found, st₁⟩
    have hfind := (indexRegistryGetOrCreate_find hget).1
    rw [hget] at hreg hsame
    dsimp only at hreg hsame
    subst hreg
    rw [← hsame]
    cases found with
    | none => exact ⟨rfl, hfind⟩
    | some tree =>
      refine ⟨rfl, (setTree_find _ _ _).trans ?_⟩
      rw [hfind]
      rfl

/-- An entry that counts the rows does so after the checks of `storage_insert`. -/
theorem countsRows_ensureMeta (hshort : table.length ≤ nameMax) {width : ℕ}
    (hload : loadTableRows ((st.files path).getD []) width = some rows)
    (h : st.CountsRows table rows.length) :
    (ensureMeta st table path idCol).CountsRows table rows.length := by
  intro m hm
  rw [ensureMeta_find hshort] at hm
  cases hold : st.metaCache.find table with
  | some m' =>
    rw [hold] at hm
    exact h m (hold.trans hm)
  | none =>
    rw [hold] at hm
    dsimp only at hm
    split at hm
    · rw [← Option.some.inj hm]
      exact length_of_mapM_parseRow (records_of_getD hload)
    · exact absurd hm (by simp)

theorem countsRows_nextAutoId (hshort : table.length ≤ nameMax) {width : ℕ}
    (hload : loadTableRows ((st.files path).getD []) width = some rows)
    (h : st.CountsRows table rows.length) :
    (nextAutoId st table path idCol).2.CountsRows table rows.length := by
  have hrefresh : refreshMeta st table path = st := by
    unfold refreshMeta
    cases hfind : st.metaCache.find table with
    | none => rfl
    | some m =>
      dsimp only
      refine if_neg fun hstale => ?_
      -- counters that start over belong to a file without rows
      rw [hstale.2.2] at hload
      obtain rfl : [] = rows := by simpa [loadTableRows] using hload
      have hzero := h m hfind
      rw [List.length_nil] at hzero
      omega
  unfold nextAutoId
  rw [hrefresh]
  dsimp only
  cases hfind : st.metaCache.find table with
  | some m => exact h
  | none =>
    dsimp only
    split
    · exact countsRows_ensureMeta hshort hload h
    · exact h

theorem nextRow_of_countsRows {width : ℕ}
    (hload : loadTableRows ((st.files path).getD []) width = some rows)
    (h : st.CountsRows table rows.length) : nextRow st table path = rows.length := by
  unfold nextRow
  cases hfind : st.metaCache.find table with
  | some m => exact h m hfind
  | none => exact length_of_mapM_parseRow (records_of_getD hload)

/-- The row has a number for its id, which is read to its end. -/
def RowReads (idCol : ℕ) (row : Row) (id : ℤ) : Prop :=
  (row[idCol]?).bind parseLongValue = some id ∧ intMin ≤ id ∧ id ≤ intMax

theorem RowReads.rowId_eq {row : Row} {id : ℤ} (h : RowReads idCol row id) :
    rowId idCol row = some id ∧ explicitId (row[idCol]?.getD []) = some id := by
  obtain ⟨cell, hcell, hread⟩ := Option.bind_eq_some_iff.mp h.1
  obtain ⟨hexplicit, hatoi⟩ := explicitId_of_parseLongValue hread h.2.1 h.2.2
  rw [rowId, hcell, Option.map_some, Option.getD_some, hatoi]
  exact ⟨rfl, hexplicit⟩

/-- A printed number that is read to its end is read as itself. -/
theorem eq_of_parseLongValue_intText {n id : ℤ} (h : parseLongValue (intText n) = some id) :
    n = id := by
  unfold parseLongValue at h
  dsimp only at h
  rw [strtol_intText_eq] at h
  by_cases hmin : n < longMin
  · rw [if_pos hmin] at h
    exact absurd h (by simp)
  · rw [if_neg hmin] at h
    by_cases hmax : longMax < n
    · rw [if_pos hmax] at h
      exact absurd h (by simp)
    · rw [if_neg hmax] at h
      split at h
      · exact absurd h (by simp)
      · exact Option.some.inj h

/-- The end of `storage_insert`, for a row whose `id` cell is the automatic id, if there is one. -/
theorem finishInsert_registers {st₁ : Storage} {width : ℕ} {row : Row} {auto : Option ℤ}
    (hregistry : st₁.registry = st.registry) (hrebuilt : st₁.indexRebuilt = st.indexRebuilt)
    (hload : loadTableRows ((st₁.files path).getD []) width = some rows)
    (hcounts : st.CountsRows table rows.length → st₁.CountsRows table rows.length)
    (hauto : ∀ a ∈ auto, row[idCol]? = some (intText a)) :
    (finishInsert st₁ table path idCol row auto).2.indexRebuilt = st.indexRebuilt ∧
      ∀ id, RowReads idCol row id → ∃ n : ℕ, (st.CountsRows table rows.length → n = rows.length) ∧
        (finishInsert st₁ table path idCol row auto).2.registry.find table =
          (indexRegistryGetOrCreate st table).1.map fun tree => bptreeInsert tree id n := by
  obtain ⟨hflag, hfind⟩ := finishInsert_tree st₁ table path idCol row auto
  refine ⟨hflag.trans hrebuilt, fun id hreads => ?_⟩
  have hid : auto.or (explicitId (row[idCol]?.getD [])) = some id := by
    cases auto with
    | none => exact hreads.rowId_eq.2
    | some a =>
      have hread := hreads.1
      rw [hauto a rfl, Option.bind_some] at hread
      rw [Option.some_or, eq_of_parseLongValue_intText hread]
  rw [hid] at hfind
  refine ⟨nextRow st₁ table path, fun h => nextRow_of_countsRows hload (hcounts h), ?_⟩
  rw [hfind, indexRegistryGetOrCreate_fst, indexRegistryGetOrCreate_fst, hregistry]

/-- **An INSERT registers the row that it appends, and where the entry of the table counts its rows,
under its number.** -/
theorem storageInsert_tree {schema : List ColDef} (hshort : table.length ≤ nameMax)
    (hc : st.Coherent table) (hschema : st.tableSchema table = some schema)
    (hidx : findSchemaIndex schema "id".toList = some idCol)
    (hload : loadTableRows ((st.content table).getD []) schema.length = some rows)
    (columns values : List CStr) :
    (storageInsert st table columns values).2.indexRebuilt = st.indexRebuilt ∧
      match appendedRow st table columns values with
      | none => (storageInsert st table columns values).2.registry.find table =
          st.registry.find table
      | some row => ∀ id, RowReads idCol row id →
          ∃ n : ℕ, (st.CountsRows table rows.length → n = rows.length) ∧
            (storageInsert st table columns values).2.registry.find table =
              (indexRegistryGetOrCreate st table).1.map fun tree => bptreeInsert tree id n := by
  unfold storageInsert appendedRow
  by_cases hargs : table = [] ∨ values = []
  · rw [if_pos hargs, if_pos hargs]
    exact ⟨rfl, rfl⟩
  rw [if_neg hargs, if_neg hargs, hschema, Option.bind_some]
  obtain ⟨paths, schemas, hopen, -⟩ := openTable_view hshort hc
  rw [hopen, hschema, Option.map_some]
  dsimp only
  set st₁ : Storage := { st with pathCache := paths, schemaCache := schemas } with hst₁
  have hauto : (nextAutoId (ensureMeta st₁ table (st.tableFile table) idCol) table
      (st.tableFile table) idCol).1 = st.autoId table idCol :=
    autoId_eq st paths schemas table (st.tableFile table) idCol
  obtain ⟨cache, heq, -⟩ := ensureMeta_snd st₁ table (st.tableFile table) idCol
  have hcounts : st.CountsRows table rows.length →
      (ensureMeta st₁ table (st.tableFile table) idCol).CountsRows table rows.length :=
    fun h => @countsRows_ensureMeta st₁ table _ _ _ hshort _ hload h
  unfold insertWithId insertedRow
  rw [hidx]
  dsimp only
  rw [heq] at hauto hcounts ⊢
  rcases hgives : (if columns = [] then Except.ok true else userHasId values.length columns) with
    e | _ | _ <;> dsimp only
  · exact ⟨rfl, rfl⟩
  · obtain ⟨cache', hnext, -⟩ :=
      nextAutoId_snd { st₁ with metaCache := cache } table (st.tableFile table) idCol
    have hcounts' := fun h => @countsRows_nextAutoId { st₁ with metaCache := cache } table _ idCol
      rows hshort _ hload (hcounts h)
    rcases hres : nextAutoId { st₁ with metaCache := cache } table (st.tableFile table) idCol with
      ⟨_ | id, st₂⟩ <;> rw [hres] at hauto hnext hcounts' <;>
      dsimp only at hauto hnext hcounts' ⊢ <;> rw [← hauto] <;> subst hnext
    · exact ⟨rfl, rfl⟩
    rw [Option.bind_some]
    cases hrow : buildRowInSchemaOrder schema ("id".toList :: columns) (intText id :: values) with
    | error e => exact ⟨rfl, rfl⟩
    | ok row =>
      have hcell : row[idCol]? = some (intText id) :=
        @buildRow_getElem? _ _ _ _ hrow 0 _ _ _ rfl rfl hidx
      exact finishInsert_registers rfl rfl hload hcounts' fun a ha => by
        rw [← Option.some.inj ha]
        exact hcell
  · cases hrow : buildRowInSchemaOrder schema columns values with
    | error e => exact ⟨rfl, rfl⟩
    | ok row => exact finishInsert_registers rfl rfl hload hcounts (by simp)

end Insert

end MiniSql

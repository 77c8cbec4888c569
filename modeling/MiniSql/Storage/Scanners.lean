import MiniSql.Storage.Binary
import MiniSql.Storage.Touch

/-!
# Six loops over the records of a file

`load_table_rows` fails at the first record that it cannot parse, and so does `load_row_at_index`,
but the loops that count and those that fill the tree skip such a record and count it. In a file
that is loaded there is none, and they all number the rows alike.

## Main definitions

* `positions` — the ids that are positive, with the positions of their rows.
* `ScannedAs` — what each of the loops makes of a file.

## Main results

* `scannedAs_of_load` — on a file that is loaded the loops agree.
-/

namespace MiniSql
open CText

/-- The positive ids of the rows, each with the position of its row. -/
def positions (idCol : ℕ) (rows : List Row) : List (ℤ × ℤ) :=
  rows.zipIdx.filterMap fun p =>
    ((rowId idCol p.1).filter fun id => 0 < id).map fun id => (id, (p.2 : ℤ))

/-- The loops over the file of a table number its rows like `load_table_rows`: the fetch by a
number, the two counts, `storage_ensure_index` without a `.bin` file, and `rebuild_index`. -/
structure ScannedAs (st : Storage) (path : Path) (width : ℕ) (rows : List Row) : Prop where
  fetched : ∀ (i : ℕ) (row : Row), rows[i]? = some row →
    loadRowAtIndex st path width i = some [row]
  beyond : ∀ i : ℕ, rows.length ≤ i → loadRowAtIndex st path width i = some []
  counted : countCsvRows st path = rows.length
  scanned : ∀ idCol, (scanCsvMeta st path idCol).2 = rows.length
  ensured : ∀ (table : CStr) (schema : List ColDef) (idCol : ℕ) (tree : BPTree) (st₁ st₂ : Storage),
    ¬ (table = [] ∨ table ∈ st.indexRebuilt) →
    openTable st table = (some (path, schema), st₁) →
    findSchemaIndex schema "id".toList = some idCol →
    indexRegistryGetOrCreate st₁ table = (some tree, st₂) →
    ¬ (fitsPath (binPath table) ∧ (st.files (binPath table)).isSome) →
    (ensureIndex st table).registry.find table =
      some (bptreeInsertAll tree (positions idCol rows))
  rebuilt : ∀ (table : CStr) (idCol : ℕ) (tree : BPTree) (st₁ : Storage),
    indexRegistryGetOrCreate (indexRegistryDestroyAll st) table = (some tree, st₁) →
    (rebuildIndexWith false st table path (some idCol)).registry.find table =
      some (bptreeInsertAll tree (positions idCol rows))

/-! ## The fetch by a number -/

theorem loadRowLoop_eq {width : ℕ} {records : List CStr} {rows : List Row}
    (h : records.mapM (parseRow width) = some rows) (n : ℕ) :
    loadRowLoop width true records n = some (rows[n]?).toList := by
  induction records generalizing rows n with
  | nil =>
    obtain rfl : [] = rows := by simpa using h
    rfl
  | cons record records ih =>
    rw [List.mapM_cons] at h
    obtain ⟨row, hrow, h⟩ := Option.bind_eq_some_iff.mp h
    obtain ⟨rest, hrest, h⟩ := Option.bind_eq_some_iff.mp h
    obtain rfl : row :: rest = rows := Option.some.inj h
    rw [loadRowLoop, hrow]
    cases n with
    | zero => rfl
    | succ n =>
      dsimp only
      rw [ih hrest, List.getElem?_cons_succ]

/-- Each record is one row. -/
theorem length_of_mapM_parseRow {width : ℕ} {records : List CStr} {rows : List Row}
    (h : records.mapM (parseRow width) = some rows) : records.length = rows.length := by
  induction records generalizing rows with
  | nil =>
    obtain rfl : [] = rows := by simpa using h
    rfl
  | cons record records ih =>
    rw [List.mapM_cons] at h
    obtain ⟨row, -, h⟩ := Option.bind_eq_some_iff.mp h
    obtain ⟨rest, hrest, h⟩ := Option.bind_eq_some_iff.mp h
    obtain rfl : row :: rest = rows := Option.some.inj h
    rw [List.length_cons, List.length_cons, ih hrest]

/-! ## The pairs for the tree -/

/-- The pairs of the loop with a counter are those with the positions. -/
theorem numbered_eq_zipIdx {α : Type*} (key : α → Option ℤ) (xs : List α) (n : ℕ) :
    numbered key xs n =
      (xs.zipIdx n).filterMap fun p => (key p.1).map fun id => (id, (p.2 : ℤ)) := by
  induction xs generalizing n with
  | nil => rfl
  | cons x xs ih =>
    rw [numbered, List.zipIdx_cons, List.filterMap_cons, ih]
    cases key x <;> rfl

/-- The loop that fills the tree from the records inserts the ids of the rows. -/
theorem indexLoop_eq_positions {width : ℕ} {records : List CStr} {rows : List Row}
    (h : records.mapM (parseRow width) = some rows) (idCol : ℕ) (tree : BPTree) :
    indexLoop idCol records 0 tree = bptreeInsertAll tree (positions idCol rows) := by
  rw [indexLoop_eq, numbered_records h, numbered_eq_zipIdx]
  rfl

/-! ## All of them -/

section Scanners

variable {st : Storage} {path : Path} {width : ℕ} {rows : List Row}

/-- A file that is loaded ends behind a record, and each of its records is a row. -/
theorem records_of_load (h : (st.files path).bind (loadTableRows · width) = some rows) :
    ∃ file, st.files path = some file ∧ (csvRecords file).2 = true ∧
      (st.records path).mapM (parseRow width) = some rows := by
  obtain ⟨file, hfile, hload⟩ := Option.bind_eq_some_iff.mp h
  obtain ⟨hclean, hrows⟩ := loadTableRows_eq_some.mp hload
  have hrecords : st.records path = (csvRecords file).1 := by rw [Storage.records, hfile]
  exact ⟨file, hfile, hclean, by rw [hrecords]; exact hrows⟩

theorem loadRowAtIndex_eq (h : (st.files path).bind (loadTableRows · width) = some rows) (i : ℕ) :
    loadRowAtIndex st path width i = some (rows[i]?).toList := by
  obtain ⟨file, hfile, hclean, hrecords⟩ := records_of_load h
  rw [Storage.records, hfile] at hrecords
  unfold loadRowAtIndex
  rw [if_neg (by omega), hfile]
  dsimp only
  rw [hclean, Int.toNat_natCast]
  exact loadRowLoop_eq hrecords i

theorem rebuildIndexWith_positions (h : (st.files path).bind (loadTableRows · width) = some rows)
    {table : CStr} {idCol : ℕ} {tree : BPTree} {st₁ : Storage}
    (hget : indexRegistryGetOrCreate (indexRegistryDestroyAll st) table = (some tree, st₁)) :
    (rebuildIndexWith false st table path (some idCol)).registry.find table =
      some (bptreeInsertAll tree (positions idCol rows)) := by
  obtain ⟨file, hfile, -, hrecords⟩ := records_of_load h
  obtain ⟨hfind, -⟩ := indexRegistryGetOrCreate_find hget
  obtain ⟨registry, hsnd⟩ := indexRegistryGetOrCreate_snd (indexRegistryDestroyAll st) table
  rw [hget] at hsnd
  dsimp only at hsnd
  have hfile' : st₁.files path = some file := by
    rw [hsnd]
    exact hfile
  have hrecords' : st₁.records path = st.records path := by
    rw [Storage.records, Storage.records, hfile', hfile]
  unfold rebuildIndexWith
  dsimp only
  rw [hget]
  dsimp only
  rw [if_neg (by simp), hfile']
  dsimp only
  rw [setTree_find, hfind, Option.map_some, hrecords', indexLoop_eq_positions hrecords]

theorem fillIndex_positions (h : (st.files path).bind (loadTableRows · width) = some rows)
    {table : CStr} {schema : List ColDef} {idCol : ℕ} {tree : BPTree}
    (hfind : st.registry.find table = some tree)
    (hbin : ¬ (fitsPath (binPath table) ∧ (st.files (binPath table)).isSome)) :
    (fillIndex st table path schema idCol tree).registry.find table =
      some (bptreeInsertAll tree (positions idCol rows)) := by
  obtain ⟨file, hfile, -, hrecords⟩ := records_of_load h
  have hnone : (if fitsPath (binPath table) = true then st.files (binPath table) else none) = none := by
    by_cases hfits : fitsPath (binPath table) = true
    · rw [if_pos hfits]
      exact Option.not_isSome_iff_eq_none.mp fun hsome => hbin ⟨hfits, hsome⟩
    · rw [if_neg hfits]
  unfold fillIndex
  dsimp only
  rw [hnone, hfile]
  dsimp only
  obtain ⟨rebuilt, hmark⟩ := markRebuilt_snd (putMeta (setTree st table
    (indexLoop idCol (st.records path) 0 tree)) table (scannedMeta idCol (st.records path))) table
  obtain ⟨cache, hput⟩ := putMeta_snd (setTree st table
    (indexLoop idCol (st.records path) 0 tree)) table (scannedMeta idCol (st.records path))
  rw [hmark, hput]
  dsimp only
  rw [setTree_find, hfind, Option.map_some, indexLoop_eq_positions hrecords]

theorem ensureIndex_positions (h : (st.files path).bind (loadTableRows · width) = some rows)
    {table : CStr} {schema : List ColDef} {idCol : ℕ} {tree : BPTree} {st₁ st₂ : Storage}
    (hfresh : ¬ (table = [] ∨ table ∈ st.indexRebuilt))
    (hopen : openTable st table = (some (path, schema), st₁))
    (hid : findSchemaIndex schema "id".toList = some idCol)
    (hget : indexRegistryGetOrCreate st₁ table = (some tree, st₂))
    (hbin : ¬ (fitsPath (binPath table) ∧ (st.files (binPath table)).isSome)) :
    (ensureIndex st table).registry.find table =
      some (bptreeInsertAll tree (positions idCol rows)) := by
  obtain ⟨paths, schemas, hsnd⟩ := openTable_snd st table
  obtain ⟨registry, hsnd'⟩ := indexRegistryGetOrCreate_snd st₁ table
  rw [hopen] at hsnd
  rw [hget] at hsnd'
  dsimp only at hsnd hsnd'
  have hfiles : st₂.files = st.files := by rw [hsnd', hsnd]
  obtain ⟨hfind, -⟩ := indexRegistryGetOrCreate_find hget
  rw [ensureIndex_eq, if_neg hfresh, hopen]
  dsimp only
  rw [hid]
  dsimp only
  rw [hget]
  dsimp only
  rw [← hfiles] at h hbin
  exact fillIndex_positions h hfind hbin

/-- **On a file that is loaded all loops number the rows alike.** -/
theorem scannedAs_of_load (h : (st.files path).bind (loadTableRows · width) = some rows) :
    ScannedAs st path width rows where
  fetched i row hrow := by rw [loadRowAtIndex_eq h, hrow, Option.toList_some]
  beyond i hi := by rw [loadRowAtIndex_eq h, List.getElem?_eq_none hi, Option.toList_none]
  counted := by
    obtain ⟨-, -, -, hrecords⟩ := records_of_load h
    exact length_of_mapM_parseRow hrecords
  scanned _ := by
    obtain ⟨-, -, -, hrecords⟩ := records_of_load h
    exact length_of_mapM_parseRow hrecords
  ensured _ _ _ _ _ _ hfresh hopen hid hget hbin := ensureIndex_positions h hfresh hopen hid hget hbin
  rebuilt _ _ _ _ hget := rebuildIndexWith_positions h hget

/-- A table `t (id INT, n VARCHAR)` of four rows: a line break in a cell, an id that is negative, and
no line break at the end. -/
def fourRows : Path → Option CStr := fun path =>
  if path = schemaPath .nested "t".toList then some "id,INT\nn,VARCHAR\n".toList
  else if path = tablePath .nested "t".toList then
    some "7,\"a\nb\"\r\n-2,x\n3,\"\"\"\"\n7,y".toList
  else none

theorem scannedAs_of_load_four :
    ScannedAs (.start fourRows) (tablePath .nested "t".toList) 2
      [["7".toList, "a\nb".toList], ["-2".toList, "x".toList], ["3".toList, "\"".toList],
        ["7".toList, "y".toList]] :=
  scannedAs_of_load (by decide +kernel)

end Scanners

end MiniSql

import MiniSql.Storage.Index

/-!
# Deleting and updating rows

`storage_delete` and `storage_update` write the rows that stay to a temporary file, remove
the file of the table and rename the temporary file. Both are one function, `rewriteTable`,
with their own checks and their own treatment of a row.

Every file operation may fail. `storageDelete` and `storageUpdate` are the functions without
failures.

## Main definitions

* `RewriteFaults` — which operations fail.
* `rewrittenFile` — the content of the temporary file.
* `storageDeleteWith`, `storageUpdateWith`, `storageDelete`, `storageUpdate`.

## Main results

* `rewrite_preserved_iff` — when a failed statement leaves the table as it was.
-/

namespace MiniSql
open CText

/-- The file operations that fail, and what a failed call leaves at the temporary path.
`probe` are the `fopen` of `path_exists`, `write i` is the `i`-th `write_csv_row`. -/
structure RewriteFaults where
  probe : Path → Bool
  openSchema : Bool
  openSource : Bool
  openTemp : Bool
  write : ℕ → Bool
  closeSource : Bool
  closeTemp : Bool
  removeTable : Bool
  renameTemp : Bool
  openIndex : Bool
  leftover : Option CStr

/-- No operation fails. -/
def RewriteFaults.none : RewriteFaults where
  probe := fun _ => false
  openSchema := false
  openSource := false
  openTemp := false
  write := fun _ => false
  closeSource := false
  closeTemp := false
  removeTable := false
  renameTemp := false
  openIndex := false
  leftover := Option.none

/-- What happens to a row: it is refused (`none`), dropped, or written. -/
abbrev RowPlan := Row → Option (Option Row)

/-- The loop over the records, with the number of rows written and the text written so far. -/
def rewriteLoop (writeFails : ℕ → Bool) (width : ℕ) (plan : RowPlan) :
    List CStr → ℕ → CStr → Option CStr
  | [], _, out => some out
  | record :: records, n, out =>
    match (parseRow width record).bind plan with
    | none => none
    | some none => rewriteLoop writeFails width plan records n out
    | some (some row) =>
      if writeFails n then none
      else rewriteLoop writeFails width plan records (n + 1) (out ++ writeCsvRow row)

/-- The content of the temporary file once it is closed. -/
def rewrittenFile (faults : RewriteFaults) (st : Storage) (path : Path) (width : ℕ)
    (plan : RowPlan) : Option CStr :=
  match if faults.openSource ∨ faults.openTemp then none else st.files path with
  | none => none
  | some file =>
    if (csvRecords file).2 = false ∨ faults.closeSource ∨ faults.closeTemp then none
    else rewriteLoop faults.write width plan (csvRecords file).1 0 []

/-- `replace_table_file`, and the removal of the temporary file when it fails. -/
def replaceTableFile (faults : RewriteFaults) (st : Storage) (path temp : Path) (out : CStr) :
    Status × Storage :=
  let st := appendFpInvalidate st path
  if faults.removeTable then (.error .failed, st.setFile temp faults.leftover)
  else if faults.renameTemp then
    (.error .failed, (st.setFile path none).setFile temp faults.leftover)
  else (.ok (), (st.setFile temp none).setFile path (some out))

/-- `delete_rows_from_table` and `update_rows_from_table`. -/
def rewriteRows (faults : RewriteFaults) (st : Storage) (path temp : Path) (width : ℕ)
    (plan : RowPlan) : Status × Storage :=
  match rewrittenFile faults st path width plan with
  | none => (.error .failed, st.setFile temp faults.leftover)
  | some out => replaceTableFile faults st path temp out

/-- The paths of the schema, of the table and of its temporary file. -/
def rewritePaths (faults : RewriteFaults) (st : Storage) (table : CStr) :
    Option (Path × Path × Path) × Storage :=
  let probe := fun path => st.pathExists path && !faults.probe path
  match buildSchemaPathWith probe st table with
  | (none, st) => (none, st)
  | (some schemaPath, st) =>
    match buildTablePathWith probe st table with
    | (none, st) => (none, st)
    | (some path, st) =>
      match buildTempPathWith probe table with
      | none => (none, st)
      | some temp => (some (schemaPath, path, temp), st)

/-- `storage_delete` and `storage_update` behind the checks of their arguments. `plan` checks
the statement against the schema. -/
def rewriteTable (faults : RewriteFaults) (st : Storage) (table : CStr)
    (plan : List ColDef → Option RowPlan) : Status × Storage :=
  match rewritePaths faults st table with
  | (none, st) => (.error .failed, st)
  | (some (schemaPath, path, temp), st) =>
    match if faults.openSchema then none else loadSchema st schemaPath with
    | none => (.error .failed, st)
    | some schema =>
      match plan schema with
      | none => (.error .failed, st)
      | some plan =>
        match rewriteRows faults st path temp schema.length plan with
        | (.error e, st) => (.error e, st)
        | (.ok (), st) =>
          (.ok (), rebuildIndexWith faults.openIndex (invalidateMetaCache st table) table path
            (findSchemaIndex schema "id".toList))

/-! ## The two statements -/

/-- `validate_delete_input`. -/
def validateDeleteInput (table : CStr) (sql : ParsedSQL) : Bool :=
  table ≠ [] && sql.conds.all fun c => c.column ≠ [] && c.op ≠ []

/-- `validate_update_input`. -/
def validateUpdateInput (table : CStr) (sql : ParsedSQL) : Bool :=
  table ≠ [] && sql.sets ≠ [] && sql.conds.all fun c => c.column ≠ [] && c.op ≠ []

theorem ne_nil_of_validateDeleteInput {table : CStr} {sql : ParsedSQL}
    (h : validateDeleteInput table sql = true) : table ≠ [] := by
  rintro rfl
  exact absurd h (by simp [validateDeleteInput])

theorem ne_nil_of_validateUpdateInput {table : CStr} {sql : ParsedSQL}
    (h : validateUpdateInput table sql = true) : table ≠ [] := by
  rintro rfl
  exact absurd h (by simp [validateUpdateInput])

variable [CDouble]

/-- What `delete_rows_from_table` does to a row. -/
def deleteRow (schema : List ColDef) (sql : ParsedSQL) : RowPlan := fun row =>
  (rowMatchesDelete schema row sql).map fun m => if m then none else some row

/-- What `update_rows_from_table` does to a row. -/
def updateRow (schema : List ColDef) (sql : ParsedSQL) (indexes : List ℕ) : RowPlan := fun row =>
  match rowMatchesDelete schema row sql with
  | none => none
  | some m => if m then (applyUpdateToRow row sql.sets indexes).map some else some (some row)

def deletePlan (sql : ParsedSQL) (schema : List ColDef) : Option RowPlan :=
  if validateDeleteClause schema sql then some (deleteRow schema sql) else none

def updatePlan (sql : ParsedSQL) (schema : List ColDef) : Option RowPlan :=
  match validateUpdateSetClause schema sql.sets with
  | none => none
  | some indexes =>
    if validateDeleteClause schema sql then some (updateRow schema sql indexes) else none

/-- `storage_delete`. -/
def storageDeleteWith (faults : RewriteFaults) (st : Storage) (table : CStr) (sql : ParsedSQL) :
    Status × Storage :=
  if validateDeleteInput table sql then rewriteTable faults st table (deletePlan sql)
  else (.error .failed, st)

/-- `storage_update`. -/
def storageUpdateWith (faults : RewriteFaults) (st : Storage) (table : CStr) (sql : ParsedSQL) :
    Status × Storage :=
  if validateUpdateInput table sql then rewriteTable faults st table (updatePlan sql)
  else (.error .failed, st)

def storageDelete (st : Storage) (table : CStr) (sql : ParsedSQL) : Status × Storage :=
  storageDeleteWith .none st table sql

def storageUpdate (st : Storage) (table : CStr) (sql : ParsedSQL) : Status × Storage :=
  storageUpdateWith .none st table sql

/-! ## What a failure leaves behind -/

/-- A status of `-1` leaves every table's file, and the tree and the counters of the table, as
they were. -/
def Preserved (st : Storage) (table : CStr) : Status × Storage → Prop
  | (.error _, st') =>
    (∀ place name, st'.files (tablePath place name) = st.files (tablePath place name)) ∧
      st'.registry.find table = st.registry.find table ∧
      st'.metaCache.find table = st.metaCache.find table
  | (.ok (), _) => True

/-- The call gets as far as renaming the temporary file, having removed the file of the table,
and the renaming fails. -/
def RenameFails (faults : RewriteFaults) (st : Storage) (table : CStr)
    (plan : List ColDef → Option RowPlan) : Prop :=
  ∃ schemaPath path temp schema rows out,
    (rewritePaths faults st table).1 = some (schemaPath, path, temp) ∧ faults.openSchema = false ∧
      loadSchema st schemaPath = some schema ∧ plan schema = some rows ∧
      rewrittenFile faults st path schema.length rows = some out ∧
      faults.removeTable = false ∧ faults.renameTemp = true

omit [CDouble] in
/-- Finding the paths touches the path cache only. -/
theorem rewritePaths_spec (faults : RewriteFaults) (st : Storage) (table : CStr) :
    (∃ cache, (rewritePaths faults st table).2 = { st with pathCache := cache }) ∧
      ∀ {sp path temp}, (rewritePaths faults st table).1 = some (sp, path, temp) →
        (∃ place name, sp = schemaPath place name) ∧ (∃ place name, path = tablePath place name) ∧
          ∃ place, temp = tempPath place table := by
  unfold rewritePaths
  set probe : Path → Bool := fun path => st.pathExists path && !faults.probe path
  obtain ⟨c₁, h₁⟩ := buildSchemaPathWith_snd probe st table
  dsimp only
  rcases hs : buildSchemaPathWith probe st table with ⟨_ | sp, st₁⟩ <;> rw [hs] at h₁ <;> subst h₁
  · exact ⟨⟨_, rfl⟩, fun h => absurd h (by simp)⟩
  dsimp only
  obtain ⟨c₂, h₂⟩ := buildTablePathWith_snd probe { st with pathCache := c₁ } table
  rcases ht : buildTablePathWith probe { st with pathCache := c₁ } table with ⟨_ | path, st₂⟩ <;>
    rw [ht] at h₂ <;> subst h₂
  · exact ⟨⟨_, rfl⟩, fun h => absurd h (by simp)⟩
  dsimp only
  rcases hm : buildTempPathWith probe table with _ | temp
  · exact ⟨⟨_, rfl⟩, fun h => absurd h (by simp)⟩
  · refine ⟨⟨_, rfl⟩, fun h => ?_⟩
    obtain ⟨rfl, rfl, rfl⟩ : sp = _ ∧ path = _ ∧ temp = _ := by simpa using h
    refine ⟨buildSchemaPathWith_fst (congrArg Prod.fst hs),
      buildTablePathWith_fst (congrArg Prod.fst ht), ?_⟩
    unfold buildTempPathWith at hm
    split_ifs at hm
    · exact ⟨.legacy, (Option.some.inj hm).symm⟩
    · exact ⟨.nested, (Option.some.inj hm).symm⟩

omit [CDouble] in
/-- What the caches of the table are after the paths are known. -/
theorem preserved_error {st : Storage} {table : CStr} {cache : Slots CStr TablePaths}
    {files : Path → Option CStr} {fps : List Path} (e : Fault) :
    Preserved st table (.error e,
        { st with pathCache := cache, files := files, appendFp := fps }) ↔
      ∀ place name, files (tablePath place name) = st.files (tablePath place name) :=
  ⟨And.left, fun h => ⟨h, rfl, rfl⟩⟩

omit [CDouble] in
/-- A file that was rewritten was there. -/
theorem rewrittenFile_isSome {faults : RewriteFaults} {st : Storage} {path : Path} {width : ℕ}
    {plan : RowPlan} {out : CStr} (h : rewrittenFile faults st path width plan = some out) :
    st.files path ≠ none := by
  intro hnone
  rw [rewrittenFile, hnone, ite_self] at h
  exact absurd h (by simp)

omit [CDouble] in
/-- A failed rewriting preserves the table unless only the renaming fails. -/
theorem preserved_rewriteTable_iff (faults : RewriteFaults) (st : Storage) (table : CStr)
    (plan : List ColDef → Option RowPlan) :
    Preserved st table (rewriteTable faults st table plan) ↔
      ¬ RenameFails faults st table plan := by
  unfold rewriteTable
  obtain ⟨⟨cache, hsnd⟩, hfst⟩ := rewritePaths_spec faults st table
  rcases hpaths : rewritePaths faults st table with ⟨_ | ⟨schemaPath, path, temp⟩, st₁⟩ <;>
    rw [hpaths] at hsnd hfst <;> subst hsnd
  · refine iff_of_true ((preserved_error .failed).mpr fun _ _ => rfl) ?_
    rintro ⟨_, _, _, _, _, _, h, -⟩
    rw [hpaths] at h
    exact absurd h (by simp)
  obtain ⟨-, ⟨place', name, rfl⟩, place, rfl⟩ := hfst rfl
  have hne : ∀ place' name, tablePath place' name ≠ tempPath place table :=
    fun place' name => (tempPath_ne_tablePath place place' table name).symm
  have hrename : RenameFails faults st table plan ↔ ∃ schema rows out,
      (if faults.openSchema then none else loadSchema st schemaPath) = some schema ∧
        plan schema = some rows ∧
        rewrittenFile faults st (tablePath place' name) schema.length rows = some out ∧
        faults.removeTable = false ∧ faults.renameTemp = true := by
    simp only [RenameFails, hpaths, Option.some.injEq, Prod.mk.injEq, ite_eq_iff, Bool.not_eq_true,
      reduceCtorEq, and_false, false_or]
    constructor
    · rintro ⟨_, _, _, schema, rows, out, ⟨rfl, rfl, rfl⟩, h, h', hrest⟩
      exact ⟨schema, rows, out, ⟨h, h'⟩, hrest⟩
    · rintro ⟨schema, rows, out, ⟨h, h'⟩, hrest⟩
      exact ⟨_, _, _, schema, rows, out, ⟨rfl, rfl, rfl⟩, h, h', hrest⟩
  rw [hrename]
  have hload : loadSchema { st with pathCache := cache } schemaPath = loadSchema st schemaPath := rfl
  dsimp only
  rw [hload]
  rcases hschema : (if faults.openSchema then none else loadSchema st schemaPath) with _ | schema
  · exact iff_of_true ((preserved_error .failed).mpr fun _ _ => rfl) (by simp)
  dsimp only
  rcases hplan : plan schema with _ | rows
  · refine iff_of_true ((preserved_error .failed).mpr fun _ _ => rfl) ?_
    rintro ⟨_, rows, _, h, h', -⟩
    rw [← Option.some.inj h, hplan] at h'
    exact absurd h' (by simp)
  dsimp only
  have hrows : rewrittenFile faults { st with pathCache := cache } (tablePath place' name)
    schema.length rows = rewrittenFile faults st (tablePath place' name) schema.length rows := rfl
  rw [rewriteRows, hrows]
  have hone : (∃ schema' rows' out, some schema = some schema' ∧ plan schema' = some rows' ∧
      rewrittenFile faults st (tablePath place' name) schema'.length rows' = some out ∧
        faults.removeTable = false ∧ faults.renameTemp = true) ↔
      ∃ out, rewrittenFile faults st (tablePath place' name) schema.length rows = some out ∧
        faults.removeTable = false ∧ faults.renameTemp = true := by
    constructor
    · rintro ⟨_, _, out, heq, h, hrest⟩
      obtain rfl := Option.some.inj heq
      rw [hplan, Option.some.injEq] at h
      exact ⟨out, h ▸ hrest⟩
    · rintro ⟨out, hrest⟩
      exact ⟨schema, rows, out, rfl, hplan, hrest⟩
  rw [hone]
  cases hout : rewrittenFile faults st (tablePath place' name) schema.length rows with
  | none =>
    refine iff_of_true ((preserved_error .failed).mpr fun place' name => ?_) (by simp)
    exact Function.update_of_ne (hne place' name) _ _
  | some out =>
    have hthere := rewrittenFile_isSome hout
    simp only [replaceTableFile, Option.some.injEq, exists_eq_left']
    cases faults.removeTable with
    | true =>
      refine iff_of_true ((preserved_error .failed).mpr fun place' name => ?_) (by simp)
      exact Function.update_of_ne (hne place' name) _ _
    | false =>
      cases faults.renameTemp with
      | false => exact iff_of_true trivial (by simp)
      | true =>
        refine iff_of_false (fun h => hthere ?_) (by simp)
        have hsame : Function.update (Function.update st.files (tablePath place' name) none)
            (tempPath place table) faults.leftover (tablePath place' name) =
              st.files (tablePath place' name) := (preserved_error .failed).mp h place' name
        rw [← hsame, Function.update_of_ne (hne place' name), Function.update_self]

/-- **A failed DELETE or UPDATE leaves the table as it was unless the file of the table was
removed and the temporary file could not be renamed.** -/
theorem rewrite_preserved_iff (faults : RewriteFaults) (st : Storage) (table : CStr)
    (sql : ParsedSQL) :
    (Preserved st table (storageDeleteWith faults st table sql) ↔
      ¬ (validateDeleteInput table sql ∧ RenameFails faults st table (deletePlan sql))) ∧
    (Preserved st table (storageUpdateWith faults st table sql) ↔
      ¬ (validateUpdateInput table sql ∧ RenameFails faults st table (updatePlan sql))) := by
  have hinput : Preserved st table (.error .failed, st) := ⟨fun _ _ => rfl, rfl, rfl⟩
  constructor
  · unfold storageDeleteWith
    cases validateDeleteInput table sql with
    | true => simpa using preserved_rewriteTable_iff faults st table (deletePlan sql)
    | false => simpa using hinput
  · unfold storageUpdateWith
    cases validateUpdateInput table sql with
    | true => simpa using preserved_rewriteTable_iff faults st table (updatePlan sql)
    | false => simpa using hinput

/-- A process on a table `t (id INT)` with one row. -/
def oneRow : Storage :=
  .start fun path =>
    if path = schemaPath .nested "t".toList then some "id,INT\n".toList
    else if path = tablePath .nested "t".toList then some "1\n".toList
    else none

/-- `DELETE FROM t`, where only the renaming fails. -/
def unrenamedDelete : Status × Storage :=
  @storageDeleteWith .whole { RewriteFaults.none with renameTemp := true } oneRow "t".toList
    { parsedNew with type := .delete, table := "t".toList }

omit [CDouble] in
/-- The table is gone, although the statement reports a failure. -/
theorem unrenamedDelete_not_preserved :
    unrenamedDelete.1 = .error .failed ∧ ¬ Preserved oneRow "t".toList unrenamedDelete := by
  have hstatus : unrenamedDelete.1 = .error .failed := by decide
  have hgone : unrenamedDelete.2.files (tablePath .nested "t".toList) = none := by decide
  have hthere : oneRow.files (tablePath .nested "t".toList) ≠ none := by decide
  refine ⟨hstatus, ?_⟩
  rcases hres : unrenamedDelete with ⟨status, st'⟩
  rw [hres] at hstatus hgone
  obtain rfl : status = .error .failed := hstatus
  exact fun h => hthere ((h.1 _ _).symm.trans hgone)

end MiniSql

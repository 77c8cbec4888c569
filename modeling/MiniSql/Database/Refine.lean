import MiniSql.Database
import MiniSql.EngineReady
import MiniSql.Storage.Typed

/-!
# The engine keeps a database

The files of a process are tables: what its schema file declares, and the rows that are read from
its file. Every statement does to the files what it does to the tables, whatever the caches, the
open handles, the indexes and the trie hold, and answers as the tables do. A SELECT that goes by an
index or by the trie leaves the tables alone; its answer is not part of this.

## Main definitions

* `Represents` — the files of a name are a table.
* `Storage.Holds` — the files of all names are a database, and the caches are sound.
* `Scanned` — a statement that does not go by an index or by the trie.

## Main results

* `storageInsert_status` — what an INSERT returns.
* `holds_insert`, `holds_delete`, `holds_update`, `holds_create`, `holds_select` — the statements.
* `holds_executeStatement` — one step of the engine.
-/

namespace MiniSql
open CText

/-! ## The rows in a file -/

/-- A check behind a reading that succeeds. -/
theorem mapM_bind_guard {α β : Type*} {f : α → Option β} {p : β → Bool} {l : List α} {l' : List β}
    (h : l.mapM f = some l') :
    (l.mapM fun a => (f a).bind fun b => if p b then some b else none) =
      if l'.all p then some l' else none := by
  induction l generalizing l' with
  | nil =>
    obtain rfl : [] = l' := by simpa using h
    rfl
  | cons a l ih =>
    rw [List.mapM_cons] at h
    obtain ⟨b, hb, h⟩ := Option.bind_eq_some_iff.mp h
    obtain ⟨bs, hbs, h⟩ := Option.bind_eq_some_iff.mp h
    obtain rfl : b :: bs = l' := Option.some.inj h
    rw [List.mapM_cons, ih hbs, hb]
    cases hp : p b with
    | false => simp [hp]
    | true => cases hall : bs.all p <;> simp [hp, hall]

/-- The rows of a file are read where all are as wide as the table. -/
theorem loadTableRows_of_readRows {file : CStr} {rows : List Row} (h : readRows file = some rows)
    (width : ℕ) :
    loadTableRows file width = if rows.all (·.length = width) then some rows else none := by
  unfold readRows at h
  split at h
  · rename_i hclean
    rw [loadTableRows, if_pos hclean, ← mapM_bind_guard h]
    congr 1
    funext record
    simp [parseRow]
  · exact absurd h (by simp)

/-- The rows that are read are rows of C strings. -/
theorem nulFree_readRows {file : CStr} {rows : List Row} (h : readRows file = some rows) :
    ∀ row ∈ rows, ∀ v ∈ row, NulFree v := by
  intro row hrow
  unfold readRows at h
  split at h
  · obtain ⟨record, -, hparse⟩ := exists_of_mapM h hrow
    exact nulFree_parseCsvLoop (nulFree_cstr _) nulFree_nil (by simp) hparse
  · exact absurd h (by simp)

theorem readRows_append {file : CStr} {rows : List Row} {row : Row} (hline : EndsLine file)
    (h : readRows file = some rows) (hne : row ≠ []) (hnul : ∀ v ∈ row, NulFree v) :
    readRows (file ++ writeCsvRow row) = some (rows ++ [row]) := by
  unfold readRows at h ⊢
  split at h
  · rename_i hclean
    have hnew : csvRecords (writeCsvRow row) = ([csvLine row], true) := by
      simpa using csvRecords_writeCsvRow row []
    rw [csvRecords_append (hline.terminated _) hclean, hnew]
    simp [List.mapM_append, h, parseCsvRecord_csvLine hne hnul]
  · exact absurd h (by simp)

theorem readRows_written {width : ℕ} {rows : List Row} (hw : 0 < width)
    (h : ∀ row ∈ rows, RowOk width row) : readRows (rows.flatMap writeCsvRow) = some rows := by
  rw [readRows, csvRecords_flatMap, if_pos rfl]
  refine mapM_map_eq_some fun row hrow => ?_
  obtain ⟨hlen, hnul⟩ := h row hrow
  exact parseCsvRecord_csvLine (List.ne_nil_of_length_pos (hlen ▸ hw)) hnul

/-- The rows in the text of a file; without a file there is no place for rows. -/
def RowsIn : Option CStr → Option (List Row) → Prop
  | none, none => True
  | some text, some rows => EndsLine text ∧ readRows text = some rows
  | _, _ => False

theorem RowsIn.withRow {content : Option CStr} {rows : Option (List Row)} (h : RowsIn content rows)
    {row : Row} (hne : row ≠ []) (hnul : ∀ v ∈ row, NulFree v) :
    RowsIn (withRow content (some row)) (some (rows.getD [] ++ [row])) := by
  have hread : EndsLine (content.getD []) ∧ readRows (content.getD []) = some (rows.getD []) := by
    cases content <;> cases rows
    · exact ⟨endsLine_nil, rfl⟩
    · exact h.elim
    · exact h.elim
    · exact h
  exact ⟨endsLine_writeCsvRow _ row, readRows_append hread.1 hread.2 hne hnul⟩

theorem RowsIn.getD {content : Option CStr} {rows : Option (List Row)} (h : RowsIn content rows) :
    RowsIn (some (content.getD [])) (some (rows.getD [])) := by
  cases content <;> cases rows
  · exact ⟨endsLine_nil, rfl⟩
  · exact h.elim
  · exact h.elim
  · exact h

theorem rowsIn_written {width : ℕ} {rows : List Row} (hw : 0 < width)
    (h : ∀ row ∈ rows, RowOk width row) : RowsIn (some (rows.flatMap writeCsvRow)) (some rows) :=
  ⟨endsLine_flatMap rows, readRows_written hw h⟩

/-! ## Files that are tables -/

/-- The files of a name are a table, and nothing of that name is in the directory of old. -/
structure Represents (files : Path → Option CStr) (name : CStr) (t : Table) : Prop where
  noSchema : files (schemaPath .legacy name) = none
  noTable : files (tablePath .legacy name) = none
  schema : (files (schemaPath .nested name)).bind parseSchema = t.schema
  rows : RowsIn (files (tablePath .nested name)) t.rows

/-- The files of all names are a database, and the caches agree with them. -/
structure Storage.Holds (st : Storage) (db : Database) : Prop where
  sound : st.Sound
  table : ∀ name, PlainName name → Represents st.files name (db name)

section Represents

variable {st st' : Storage} {name : CStr} {t t' : Table} {db : Database}

theorem Represents.schemaFile (h : Represents st.files name t) :
    st.schemaFile name = schemaPath .nested name := by
  have hplace : st.schemaPlace name = .nested := by
    simp [Storage.schemaPlace, Storage.pathExists, h.noSchema]
  rw [Storage.schemaFile, hplace]

theorem Represents.tableFile (h : Represents st.files name t) :
    st.tableFile name = tablePath .nested name := by
  have hplace : st.tablePlace name = .nested := by
    simp [Storage.tablePlace, Storage.pathExists, h.noTable]
  rw [Storage.tableFile, hplace]

theorem Represents.tableSchema (h : Represents st.files name t) : st.tableSchema name = t.schema := by
  rw [Storage.tableSchema, h.schemaFile, loadSchema, h.schema]

theorem Represents.content (h : Represents st.files name t) : RowsIn (st.content name) t.rows := by
  rw [Storage.content, h.tableFile]
  exact h.rows

/-- Reading a table from its file. -/
theorem Represents.load (h : Represents st.files name t) (schema : List ColDef) :
    ((st.content name).bind (loadTableRows · schema.length)) =
      t.rows.bind fun rows => if rows.all (·.length = schema.length) then some rows else none := by
  have hrows := h.content
  cases hcontent : st.content name with
  | none =>
    rw [hcontent] at hrows
    cases htable : t.rows with
    | none => rfl
    | some rows => exact (htable ▸ hrows).elim
  | some text =>
    rw [hcontent] at hrows
    cases htable : t.rows with
    | none => exact (htable ▸ hrows).elim
    | some rows =>
      rw [htable] at hrows
      exact loadTableRows_of_readRows hrows.2 schema.length

/-- The rows of a table are C strings. -/
theorem Represents.nulFree (h : Represents st.files name t) {rows : List Row}
    (hrows : t.rows = some rows) : ∀ row ∈ rows, ∀ v ∈ row, NulFree v := by
  have hin := h.rows
  rw [hrows] at hin
  cases hfile : st.files (tablePath .nested name) with
  | none => exact ((hfile ▸ hin : RowsIn none (some rows))).elim
  | some text => exact nulFree_readRows ((hfile ▸ hin : RowsIn (some text) (some rows))).2

/-- A statement that wrote the file of its table and nothing else. -/
theorem Represents.written {st₁ : Storage} (h : Represents st.files name t)
    (hwrites : Writes name st₁ st') (hfiles : st₁.files = st.files) {rows : Option (List Row)}
    (hrows : RowsIn (st'.files (st.tableFile name)) rows) :
    Represents st'.files name { t with rows := rows } := by
  have hfile : st₁.tableFile name = tablePath .nested name :=
    @Represents.tableFile st₁ name t (hfiles ▸ h)
  refine ⟨?_, ?_, ?_, ?_⟩
  · rw [hwrites.schemaPath_files, hfiles]
    exact h.noSchema
  · rw [hwrites.files _ (fun place => (tempPath_ne_tablePath place _ name name).symm), hfiles]
    · exact h.noTable
    · rw [hfile]
      intro heq
      exact absurd (tablePath_inj heq) (by decide)
  · rw [hwrites.schemaPath_files, hfiles]
    exact h.schema
  · rw [← h.tableFile]
    exact hrows

/-- **A statement on one table is a step of that table.** -/
theorem Storage.Holds.write (h : st.Holds db) (hplain : PlainName name) (htouch : Touches name st st')
    (hsound : st'.Sound) (hrep : Represents st'.files name t') :
    st'.Holds (Function.update db name t') := by
  refine ⟨hsound, fun other hother => ?_⟩
  by_cases hne : other = name
  · subst hne
    rw [Function.update_self]
    exact hrep
  · rw [Function.update_of_ne hne]
    have hsame : ∀ {path}, OwnPath other path → st'.files path = st.files path :=
      fun hown => htouch.files_of_ne hplain hother hne hown
    have hrep := h.table other hother
    refine ⟨?_, ?_, ?_, ?_⟩
    · rw [hsame (ownPath_schema _ _)]
      exact hrep.noSchema
    · rw [hsame (ownPath_table _ _)]
      exact hrep.noTable
    · rw [hsame (ownPath_schema _ _)]
      exact hrep.schema
    · rw [hsame (ownPath_table _ _)]
      exact hrep.rows

/-- What changes no file changes no table. -/
theorem Storage.Holds.of_files (h : st.Holds db) (hsound : st'.Sound) (hfiles : st'.files = st.files) :
    st'.Holds db := by
  refine ⟨hsound, fun other hother => ?_⟩
  rw [hfiles]
  exact h.table other hother

end Represents

/-! ## Inserting -/

section Insert

variable {st : Storage} {name : CStr} {t : Table} {db : Database}

/-- The id for a row without one, as the engine finds it. -/
def Storage.autoOf (st : Storage) (name : CStr) (schema : List ColDef) : Option ℤ :=
  (findSchemaIndex schema "id".toList).bind (st.autoId name)

/-- The row an INSERT writes is the new row of the table. -/
theorem insertedRow_eq (st : Storage) (name : CStr) (columns values : List CStr)
    (schema : List ColDef) :
    insertedRow st name columns values schema =
      (newRow schema (st.autoOf name schema) columns values).toOption.map Prod.fst := by
  have hmap : ∀ (built : Except Fault Row) (readable : Row → Bool),
      built.toOption = (built.map fun row => (row, readable row)).toOption.map Prod.fst := by
    intro built readable
    cases built <;> rfl
  unfold insertedRow newRow Storage.autoOf
  cases findSchemaIndex schema "id".toList with
  | none => exact hmap _ _
  | some idCol =>
    dsimp only
    rcases (if columns = [] then Except.ok true else userHasId values.length columns) with
      e | _ | _ <;> dsimp only
    · rfl
    · rw [Option.bind_some]
      cases st.autoId name idCol with
      | none => rfl
      | some id => exact hmap _ _
    · exact hmap _ _

/-- The status of an INSERT with a new row. -/
def statusOf : Except Fault (Row × Bool) → Status
  | .error e => .error e
  | .ok (_, readable) => if readable then .ok () else .error .failed

/-- **What an INSERT returns.** -/
theorem storageInsert_status (hs : st.Sound) (hplain : PlainName name) (hne : name ≠ [])
    {columns values : List CStr} (hvalues : values ≠ []) {schema : List ColDef}
    (hschema : st.tableSchema name = some schema) :
    (storageInsert st name columns values).1 =
      statusOf (newRow schema (st.autoOf name schema) columns values) := by
  obtain ⟨paths, schemas, hopen, -⟩ := openTable_view hplain.1 (hs.coherent name hplain)
  -- the end of the function, behind the row
  have hfinish : ∀ (st : Storage) idCol row (auto : Option ℤ),
      (finishInsert st name (st.tableFile name) idCol row auto).1 = statusOf
        (.ok (row, (auto.or (explicitId (row[idCol]?.getD []))).isSome)) := by
    intro st idCol row auto
    have hspec := finishInsert_spec st name (st.tableFile name) idCol row auto
    split at hspec
    · rename_i hid
      rw [hspec, hid]
      rfl
    · rename_i id hid
      obtain ⟨registry, cache, hfin⟩ := hspec
      rw [hfin, hid]
      rfl
  unfold storageInsert
  rw [if_neg (by simp [hne, hvalues]), hopen, hschema, Option.map_some]
  set st₁ : Storage := { st with pathCache := paths, schemaCache := schemas } with hst₁
  dsimp only
  unfold newRow Storage.autoOf
  cases hidx : findSchemaIndex schema "id".toList with
  | none =>
    dsimp only
    cases buildRowInSchemaOrder schema columns values <;> rfl
  | some idCol =>
    dsimp only
    rw [Option.bind_some]
    unfold insertWithId
    obtain ⟨cache, hens, -⟩ := ensureMeta_snd st₁ name (st.tableFile name) idCol
    have hauto : (nextAutoId (ensureMeta st₁ name (st.tableFile name) idCol) name
        (st.tableFile name) idCol).1 = st.autoId name idCol :=
      autoId_eq st paths schemas name (st.tableFile name) idCol
    rw [hens] at hauto ⊢
    dsimp only
    rcases (if columns = [] then Except.ok true else userHasId values.length columns) with
      e | _ | _ <;> dsimp only
    · rfl
    · obtain ⟨cache', hnext, -⟩ := nextAutoId_snd { st₁ with metaCache := cache } name
        (st.tableFile name) idCol
      rcases hres : nextAutoId { st₁ with metaCache := cache } name (st.tableFile name) idCol with
        ⟨_ | id, st₂⟩ <;> rw [hres] at hnext hauto <;> subst hnext <;> dsimp only at hauto ⊢ <;>
        rw [← hauto]
      · rfl
      · dsimp only
        cases buildRowInSchemaOrder schema ("id".toList :: columns) (intText id :: values) with
        | error e => rfl
        | ok row => exact hfinish { st₁ with metaCache := cache' } idCol row (some id)
    · cases buildRowInSchemaOrder schema columns values with
      | error e => rfl
      | ok row => exact hfinish { st₁ with metaCache := cache } idCol row none

/-- **An INSERT puts a row behind the others.** -/
theorem holds_insert (h : st.Holds db) (hplain : PlainName name) (hne : name ≠ [])
    {columns values : List CStr} (hnul : ∀ v ∈ values, NulFree v) :
    ∃ auto, (Outcome.ofStatus (storageInsert st name columns values).1).answer =
        ((db name).insert auto columns values).1 ∧
      (storageInsert st name columns values).2.Holds
        (Function.update db name ((db name).insert auto columns values).2) := by
  have hrep := h.table name hplain
  have htouch := touches_storageInsert h.sound.wf hplain.1 columns values
  have hsound := (storageInsert_table h.sound hplain columns values).1
  obtain ⟨paths, schemas, -, hwrites, hcontent, -⟩ :=
    storageInsert_view hplain.1 (h.sound.coherent name hplain) columns values
  -- an INSERT that appends nothing
  have hkeep : appendedRow st name columns values = none →
      (storageInsert st name columns values).2.Holds (Function.update db name (db name)) := by
    intro hnone
    rw [hnone] at hcontent
    refine h.write hplain htouch hsound (hrep.written hwrites rfl ?_)
    rw [hcontent]
    exact hrep.content
  by_cases hvalues : values = []
  · refine ⟨none, ?_, ?_⟩
    · simp [storageInsert, Table.insert, hvalues, Outcome.ofStatus, Outcome.answer]
    · rw [Table.insert, if_pos hvalues]
      exact hkeep (by rw [appendedRow, if_pos (.inr hvalues)])
  have hargs : ¬ (name = [] ∨ values = []) := by simp [hne, hvalues]
  cases hschema : (db name).schema with
  | none =>
    have hview : st.tableSchema name = none := hrep.tableSchema.trans hschema
    obtain ⟨paths', schemas', hopen, -⟩ := openTable_view hplain.1 (h.sound.coherent name hplain)
    refine ⟨none, ?_, ?_⟩
    · rw [storageInsert, if_neg hargs, hopen, hview, Table.insert, if_neg hvalues, hschema]
      rfl
    · rw [Table.insert, if_neg hvalues, hschema]
      exact hkeep (by rw [appendedRow, if_neg hargs, hview, Option.bind_none])
  | some schema =>
    have hview : st.tableSchema name = some schema := hrep.tableSchema.trans hschema
    have happ : appendedRow st name columns values = (newRow schema (st.autoOf name schema) columns
        values).toOption.map Prod.fst := by
      rw [appendedRow, if_neg hargs, hview, Option.bind_some, insertedRow_eq]
    refine ⟨st.autoOf name schema, ?_, ?_⟩
    · rw [storageInsert_status h.sound hplain hne hvalues hview, Table.insert, if_neg hvalues, hschema]
      dsimp only
      rcases newRow schema (st.autoOf name schema) columns values with (_ | _) | ⟨row, _ | _⟩ <;> rfl
    · rw [Table.insert, if_neg hvalues, hschema]
      dsimp only
      rcases hnew : newRow schema (st.autoOf name schema) columns values with (_ | _) | ⟨row, readable⟩ <;>
        rw [hnew] at happ
      · exact hkeep happ
      · exact hkeep happ
      · have hrow : appendedRow st name columns values = some row := happ
        have hok := rowOk_insertedRow hnul (insertedRow_of_appended hview hrow)
        have hpos := tableSchema_ne_nil hview
        rw [hrow] at hcontent
        have hrows : RowsIn ((storageInsert st name columns values).2.files (st.tableFile name))
            (some ((db name).rows.getD [] ++ [row])) := by
          rw [hcontent]
          exact hrep.content.withRow (List.ne_nil_of_length_pos (hok.1 ▸ hpos)) hok.2
        have hwritten := hrep.written hwrites rfl hrows
        rw [hschema] at hwritten
        exact h.write hplain htouch hsound hwritten

end Insert

/-! ## Deleting and updating -/

section Rewrite

variable {st : Storage} {name : CStr} {t : Table} {db : Database}

/-- The rows that a rewriting leaves, in terms of the table. -/
theorem rewrittenRows_table (h : Represents st.files name t) (plan : List ColDef → Option RowPlan) :
    rewrittenRows st name plan = t.read.bind fun (schema, rows) =>
      (plan schema).bind fun rowPlan => planRows rowPlan rows := by
  unfold rewrittenRows Table.read
  rw [h.tableSchema]
  cases t.schema with
  | none => rfl
  | some schema =>
    have hload := h.load schema
    have hswap : ∀ plan : Option RowPlan, (plan.bind fun rowPlan => (st.content name).bind fun file =>
        (loadTableRows file schema.length).bind (planRows rowPlan)) =
          ((st.content name).bind (loadTableRows · schema.length)).bind fun rows =>
            plan.bind fun rowPlan => planRows rowPlan rows := by
      intro plan
      cases plan with
      | none => cases (st.content name).bind (loadTableRows · schema.length) <;> rfl
      | some rowPlan => simp [Option.bind_assoc]
    rw [Option.bind_some, Option.bind_some, hswap, hload]
    cases t.rows with
    | none => rfl
    | some rows =>
      simp only [Option.bind_some]
      split <;> rfl

theorem planRows_isSome_iff {plan : RowPlan} {rows : List Row} :
    (planRows plan rows).isSome ↔ ∀ row ∈ rows, (plan row).isSome := by
  induction rows with
  | nil => simp
  | cons row rows ih =>
    rw [planRows_cons, List.forall_mem_cons, ← ih]
    cases plan row <;> cases planRows plan rows <;> simp

variable [CDouble]

theorem deleteRow_isSome (schema : List ColDef) (sql : ParsedSQL) (row : Row) :
    (deleteRow schema sql row).isSome = (rowMatchesDelete schema row sql).isSome := by
  simp [deleteRow]

/-- The rows that a DELETE leaves, where all its conditions have an answer. -/
theorem planRows_deleteRow_eq (schema : List ColDef) (sql : ParsedSQL) (rows : List Row) :
    planRows (deleteRow schema sql) rows = if evaluable schema sql rows
      then some (rows.filter fun row => !matchesRow schema sql row) else none := by
  have hsome := @planRows_isSome_iff (deleteRow schema sql) rows
  simp only [deleteRow_isSome] at hsome
  cases hplan : planRows (deleteRow schema sql) rows with
  | none =>
    rw [if_neg]
    intro hall
    rw [hplan] at hsome
    exact absurd (hsome.mpr (by simpa [evaluable] using hall)) (by simp)
  | some kept =>
    rw [hplan] at hsome
    rw [if_pos (by simpa [evaluable] using hsome.mp rfl), (planRows_deleteRow hplan).2]

/-- A row as wide as the table can be updated where its conditions have an answer. -/
theorem updateRow_isSome_eq {schema : List ColDef} {sql : ParsedSQL} {indexes : List ℕ}
    (hsets : validateUpdateSetClause schema sql.sets = some indexes) {row : Row}
    (hlen : row.length = schema.length) :
    (updateRow schema sql indexes row).isSome = (rowMatchesDelete schema row sql).isSome := by
  have hlt : ∀ i ∈ indexes, i < row.length := by
    intro i hi
    obtain ⟨k, hk, rfl⟩ := List.getElem_of_mem hi
    have hspec := validateUpdateSetClause_spec hsets
    have hset := (List.forall₂_iff_get.mp hspec).2 k (by rw [hspec.length_eq]; exact hk) hk
    rw [hlen]
    exact findSchemaIndex_lt hset.1
  unfold updateRow
  cases rowMatchesDelete schema row sql with
  | none => rfl
  | some m =>
    cases m with
    | false => rfl
    | true =>
      dsimp only
      rw [if_pos rfl, Option.isSome_map, applyUpdateToRow_isSome hlt]
      rfl

theorem planRows_updateRow_eq {schema : List ColDef} {sql : ParsedSQL} {indexes : List ℕ}
    (hsets : validateUpdateSetClause schema sql.sets = some indexes) {rows : List Row}
    (hlen : ∀ row ∈ rows, row.length = schema.length) :
    planRows (updateRow schema sql indexes) rows = if evaluable schema sql rows
      then some (rows.map fun row =>
        if matchesRow schema sql row then assigned schema sql.sets row else row) else none := by
  have hsome : (planRows (updateRow schema sql indexes) rows).isSome ↔
      ∀ row ∈ rows, (rowMatchesDelete schema row sql).isSome := by
    rw [planRows_isSome_iff]
    refine forall₂_congr fun row hrow => ?_
    rw [updateRow_isSome_eq hsets (hlen row hrow)]
  cases hplan : planRows (updateRow schema sql indexes) rows with
  | none =>
    rw [if_neg]
    intro hall
    rw [hplan] at hsome
    exact absurd (hsome.mpr (by simpa [evaluable] using hall)) (by simp)
  | some kept =>
    rw [hplan] at hsome
    rw [if_pos (by simpa [evaluable] using hsome.mp rfl), (planRows_updateRow hsets hplan).2]

omit [CDouble] in
theorem read_eq_some {t : Table} {schema : List ColDef} {rows : List Row}
    (h : t.read = some (schema, rows)) :
    t.schema = some schema ∧ t.rows = some rows ∧ ∀ row ∈ rows, row.length = schema.length := by
  obtain ⟨schema', hschema, h⟩ := Option.bind_eq_some_iff.mp h
  obtain ⟨rows', hrows, h⟩ := Option.bind_eq_some_iff.mp h
  split at h
  · rename_i hall
    obtain ⟨rfl, rfl⟩ := Prod.mk.inj (Option.some.inj h)
    exact ⟨hschema, hrows, by simpa using hall⟩
  · exact absurd h (by simp)

theorem deletedRows_eq {sql : ParsedSQL} (h : Represents st.files sql.table t) :
    deletedRows st sql.table sql = t.delete sql := by
  unfold deletedRows Table.delete
  split
  · rw [rewrittenRows_table h]
    congr 1
    funext ⟨schema, rows⟩
    dsimp only
    unfold deletePlan
    cases validateDeleteClause schema sql with
    | false => rfl
    | true => simpa using planRows_deleteRow_eq schema sql rows
  · rfl

theorem updatedRows_eq {sql : ParsedSQL} (h : Represents st.files sql.table t) :
    updatedRows st sql.table sql = t.update sql := by
  unfold updatedRows Table.update
  split
  · rw [rewrittenRows_table h]
    cases hread : t.read with
    | none => rfl
    | some read =>
      obtain ⟨schema, rows⟩ := read
      obtain ⟨-, -, hlen⟩ := read_eq_some hread
      rw [Option.bind_some, Option.bind_some]
      dsimp only
      unfold updatePlan
      cases hsets : validateUpdateSetClause schema sql.sets with
      | none => rfl
      | some indexes =>
        cases validateDeleteClause schema sql with
        | false => rfl
        | true => simpa using planRows_updateRow_eq hsets hlen
  · rfl

/-- The rows that a DELETE leaves are rows of the table. -/
theorem rowOk_delete {sql : ParsedSQL} (h : Represents st.files sql.table t) {kept : List Row}
    (hkept : t.delete sql = some kept) :
    ∃ width, 0 < width ∧ ∀ row ∈ kept, RowOk width row := by
  unfold Table.delete at hkept
  split at hkept
  · obtain ⟨⟨schema, rows⟩, hread, hkept⟩ := Option.bind_eq_some_iff.mp hkept
    obtain ⟨hschema, hrows, hlen⟩ := read_eq_some hread
    dsimp only at hkept
    split at hkept
    · obtain rfl := Option.some.inj hkept
      refine ⟨schema.length, tableSchema_ne_nil (h.tableSchema.trans hschema), fun row hrow => ?_⟩
      have hmem := List.mem_of_mem_filter hrow
      exact ⟨hlen row hmem, h.nulFree hrows row hmem⟩
    · exact absurd hkept (by simp)
  · exact absurd hkept (by simp)

omit [CDouble] in
/-- Assignments of C strings leave C strings. -/
theorem rowOk_assigned {width : ℕ} {schema : List ColDef} {sets : List SetClause} {row : Row}
    (hnul : ∀ set ∈ sets, NulFree set.value) (h : RowOk width row) :
    RowOk width (assigned schema sets row) := by
  refine ⟨by rw [assigned, List.length_mapIdx, h.1], fun v hv => ?_⟩
  obtain ⟨j, hj, rfl⟩ := List.mem_mapIdx.mp hv
  cases hfind : sets.find? fun set => findSchemaIndex schema set.column = some j with
  | none => exact h.2 _ (List.getElem_mem hj)
  | some set => exact hnul set (List.mem_of_find?_eq_some hfind)

/-- The rows that an UPDATE leaves are rows of the table. -/
theorem rowOk_update {sql : ParsedSQL} (h : Represents st.files sql.table t)
    (hnul : ∀ set ∈ sql.sets, NulFree set.value) {kept : List Row}
    (hkept : t.update sql = some kept) :
    ∃ width, 0 < width ∧ ∀ row ∈ kept, RowOk width row := by
  unfold Table.update at hkept
  split at hkept
  · obtain ⟨⟨schema, rows⟩, hread, hkept⟩ := Option.bind_eq_some_iff.mp hkept
    obtain ⟨hschema, hrows, hlen⟩ := read_eq_some hread
    dsimp only at hkept
    split at hkept
    · obtain rfl := Option.some.inj hkept
      refine ⟨schema.length, tableSchema_ne_nil (h.tableSchema.trans hschema), fun row hrow => ?_⟩
      obtain ⟨old, hold, rfl⟩ := List.mem_map.mp hrow
      have hok : RowOk schema.length old := ⟨hlen old hold, h.nulFree hrows old hold⟩
      split
      · exact rowOk_assigned hnul hok
      · exact hok
    · exact absurd hkept (by simp)
  · exact absurd hkept (by simp)

omit [CDouble] in
/-- A rewriting of a table writes the rows it leaves, or nothing. -/
theorem holds_rewrite (h : st.Holds db) (hplain : PlainName name) {plan : List ColDef → Option RowPlan}
    {kept : Option (List Row)} (hkept : rewrittenRows st name plan = kept)
    (hok : ∀ rows, kept = some rows → ∃ width, 0 < width ∧ ∀ row ∈ rows, RowOk width row) :
    (Outcome.ofStatus (rewriteTable .none st name plan).1).answer = ((db name).replace kept).1 ∧
      (rewriteTable .none st name plan).2.Holds
        (Function.update db name ((db name).replace kept).2) := by
  have hrep := h.table name hplain
  have htouch : Touches name st (rewriteTable .none st name plan).2 :=
    touches_rewriteTable h.sound.wf hplain.1 plan
  have hsound := (rewriteTable_table h.sound hplain plan).1
  obtain ⟨paths, -, hwrites, hresult⟩ := rewriteTable_view hplain.1 (h.sound.coherent name hplain) plan
  rw [hkept] at hresult
  cases kept with
  | none =>
    obtain ⟨hfailed, hcontent⟩ := hresult
    refine ⟨by rw [hfailed]; rfl, ?_⟩
    refine h.write hplain htouch hsound (hrep.written hwrites rfl ?_)
    rw [hcontent]
    exact hrep.content
  | some rows =>
    obtain ⟨hdone, hcontent⟩ := hresult
    obtain ⟨width, hw, hrows⟩ := hok rows rfl
    refine ⟨by rw [hdone]; rfl, ?_⟩
    refine h.write hplain htouch hsound (hrep.written hwrites rfl ?_)
    rw [hcontent]
    exact rowsIn_written hw hrows

/-- **A DELETE takes the rows away that meet its conditions.** -/
theorem holds_delete {sql : ParsedSQL} (h : st.Holds db) (hplain : PlainName sql.table) :
    (Outcome.ofStatus (storageDelete st sql.table sql).1).answer =
        ((db sql.table).replace ((db sql.table).delete sql)).1 ∧
      (storageDelete st sql.table sql).2.Holds (Function.update db sql.table
        ((db sql.table).replace ((db sql.table).delete sql)).2) := by
  have hrep := h.table sql.table hplain
  have hkept := deletedRows_eq hrep
  unfold deletedRows at hkept
  unfold storageDelete storageDeleteWith
  split
  · rename_i hinput
    rw [if_pos hinput] at hkept
    exact holds_rewrite h hplain hkept fun rows hrows => rowOk_delete hrep hrows
  · rename_i hinput
    rw [if_neg hinput] at hkept
    rw [← hkept]
    refine ⟨rfl, ?_⟩
    rw [Table.replace, Function.update_eq_self]
    exact h

/-- **An UPDATE makes its assignments in the rows that meet its conditions.** -/
theorem holds_update {sql : ParsedSQL} (h : st.Holds db) (hplain : PlainName sql.table)
    (hnul : ∀ set ∈ sql.sets, NulFree set.value) :
    (Outcome.ofStatus (storageUpdate st sql.table sql).1).answer =
        ((db sql.table).replace ((db sql.table).update sql)).1 ∧
      (storageUpdate st sql.table sql).2.Holds (Function.update db sql.table
        ((db sql.table).replace ((db sql.table).update sql)).2) := by
  have hrep := h.table sql.table hplain
  have hkept := updatedRows_eq hrep
  unfold updatedRows at hkept
  unfold storageUpdate storageUpdateWith
  split
  · rename_i hinput
    rw [if_pos hinput] at hkept
    exact holds_rewrite h hplain hkept fun rows hrows => rowOk_update hrep hnul hrows
  · rename_i hinput
    rw [if_neg hinput] at hkept
    rw [← hkept]
    refine ⟨rfl, ?_⟩
    rw [Table.replace, Function.update_eq_self]
    exact h

end Rewrite

/-! ## Creating -/

/-- **A CREATE declares the columns and keeps the rows.** -/
theorem holds_create {st : Storage} {name : CStr} {db : Database} (h : st.Holds db)
    (hplain : PlainName name) (hne : name ≠ []) (colDefs : List CStr) :
    (Outcome.ofStatus (storageCreate st name colDefs).1).answer = ((db name).create colDefs).1 ∧
      (storageCreate st name colDefs).2.Holds
        (Function.update db name ((db name).create colDefs).2) := by
  by_cases hcols : colDefs = []
  · have hbad : name = [] ∨ colDefs = [] ∨ CreateFaults.none.mkdir = true := .inr (.inl hcols)
    rw [storageCreate, storageCreateWith, if_pos hbad, Table.create, if_pos hcols,
      Function.update_eq_self]
    exact ⟨rfl, h⟩
  have hrep := h.table name hplain
  have htouch := touches_storageCreate h.sound.wf hplain.1 colDefs
  have hsound := sound_storageCreate h.sound hplain colDefs
  have hview := (storageCreate_view hplain.1 h.sound.wf (h.sound.coherent name hplain)
    ⟨hne, hcols⟩).2
  rw [hrep.schemaFile, hrep.tableFile] at hview
  have hschema : ∀ place, schemaPath place name ≠ tablePath .nested name :=
    fun place => schemaPath_ne_tablePath place _ name name
  have htable : ∀ place, tablePath place name ≠ schemaPath .nested name :=
    fun place => (schemaPath_ne_tablePath _ place name name).symm
  have hlegacy : schemaPath .legacy name ≠ schemaPath .nested name :=
    fun heq => absurd (schemaPath_inj heq) (by decide)
  have hlegacy' : tablePath .legacy name ≠ tablePath .nested name :=
    fun heq => absurd (tablePath_inj heq) (by decide)
  rw [Table.create, if_neg hcols]
  cases htext : schemaText (fun _ => false) colDefs 0 [] with
  | none =>
    rw [htext] at hview
    obtain ⟨hfailed, hfiles⟩ := hview
    refine ⟨by rw [hfailed]; rfl, h.write hplain htouch hsound ?_⟩
    rw [hfiles]
    refine ⟨?_, ?_, ?_, ?_⟩
    · rw [Function.update_of_ne hlegacy, hrep.noSchema]
    · rw [Function.update_of_ne (htable _), hrep.noTable]
    · rw [Function.update_self, Option.bind_none]
    · rw [Function.update_of_ne (htable _)]
      exact hrep.rows
  | some text =>
    rw [htext] at hview
    obtain ⟨hok, hfiles⟩ := hview
    refine ⟨by rw [hok]; rfl, h.write hplain htouch hsound ?_⟩
    rw [hfiles]
    refine ⟨?_, ?_, ?_, ?_⟩
    · rw [Function.update_of_ne (hschema _), Function.update_of_ne hlegacy, hrep.noSchema]
    · rw [Function.update_of_ne hlegacy', Function.update_of_ne (htable _), hrep.noTable]
    · rw [Function.update_of_ne (hschema _), Function.update_self, Option.bind_some]
    · rw [Function.update_self]
      exact hrep.content.getD

/-! ## Selecting -/

section Select

variable [CDouble]

/-- A SELECT that goes neither by an index nor by the trie; every other statement. -/
def Scanned (sql : ParsedSQL) : Prop :=
  sql.type = .select →
    shouldUseIdRange sql = none ∧ shouldUseIdIndex sql = none ∧ shouldUseTriePrefix sql = none

theorem collectMatchingRows_evaluable (sql : ParsedSQL) (schema : List ColDef) (rows : List Row) :
    collectMatchingRows sql schema rows = if evaluable schema sql rows
      then some (rows.filter (matchesRow schema sql)) else none := by
  induction rows with
  | nil => rfl
  | cons row rows ih =>
    rw [collectMatchingRows, ih]
    cases hrow : rowMatchesDelete schema row sql with
    | none => simp [evaluable, hrow]
    | some m =>
      have hm : matchesRow schema sql row = m := by
        rw [matchesRow, hrow]
        cases m <;> rfl
      have hall : evaluable schema sql (row :: rows) = evaluable schema sql rows := by
        simp [evaluable, hrow]
      rw [hall]
      cases evaluable schema sql rows with
      | false => rfl
      | true => cases m <;> simp [hm]

/-- The answer of a scan is the table's. -/
theorem scanAnswer_eq {st : Storage} {sql : ParsedSQL} {t : Table}
    (h : Represents st.files sql.table t) :
    (scanAnswer st sql).answer = ((t.select sql).map .rows).getD .failed := by
  have hselect : ((st.tableSchema sql.table).bind fun schema =>
      (scanRows st (st.tableFile sql.table) schema sql).bind (buildRowset sql schema)) =
        t.select sql := by
    unfold Table.select Table.read
    rw [h.tableSchema]
    cases t.schema with
    | none => rfl
    | some schema =>
      have hload := h.load schema
      rw [Option.bind_some, Option.bind_some]
      have hscan : scanRows st (st.tableFile sql.table) schema sql =
          ((st.content sql.table).bind (loadTableRows · schema.length)).bind fun rows =>
            if sql.conds.all fun c => (findSchemaIndex schema c.column).isSome
            then collectMatchingRows sql schema rows else none := by
        unfold scanRows Storage.content
        cases (st.files (st.tableFile sql.table)).bind (loadTableRows · schema.length) <;> rfl
      rw [hscan, hload]
      cases t.rows with
      | none => rfl
      | some rows =>
        rw [Option.bind_some, Option.bind_some]
        by_cases hlen : rows.all (·.length = schema.length) = true
        · rw [if_pos hlen, if_pos hlen, Option.bind_some, Option.bind_some]
          dsimp only
          cases sql.conds.all fun c => (findSchemaIndex schema c.column).isSome with
          | false => rfl
          | true =>
            rw [if_pos rfl, collectMatchingRows_evaluable]
            cases evaluable schema sql rows <;> rfl
        · rw [if_neg hlen, if_neg hlen]
          rfl
  unfold scanAnswer
  rw [hselect]
  cases t.select sql <;> rfl

/-- **A SELECT changes no table, and where it reads the whole table it answers as the table.** -/
theorem holds_select {e : Engine} {db : Database} {sql : ParsedSQL} (h : e.storage.Holds db)
    (hplain : PlainName sql.table) (hne : sql.table ≠ []) :
    (executeSelect e sql).2.storage.Holds db ∧
      (shouldUseIdRange sql = none → shouldUseIdIndex sql = none → shouldUseTriePrefix sql = none →
        (executeSelect e sql).1.answer = (((db sql.table).select sql).map .rows).getD .failed) := by
  obtain ⟨st, hselect, hsound, hfiles⟩ := @executeSelect_sound _ e sql h.sound hplain.1
  rw [hselect]
  refine ⟨h.of_files hsound hfiles, fun hrange hid htrie => ?_⟩
  have hscan := executeSelect_scan hrange hid htrie hplain.1 hne (h.sound.coherent sql.table hplain)
  rw [hscan]
  exact scanAnswer_eq (h.table sql.table hplain)

end Select

end MiniSql

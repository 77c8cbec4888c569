import MiniSql.EngineReady
import MiniSql.Extremes
import MiniSql.RangeSelect
import MiniSql.Storage.Counters

/-!
# Automatic ids

An INSERT without an id takes it from the counter of its table. The counter stays above the ids of
the rows as long as no INSERT brings along an id that is not below it, no DELETE or UPDATE resets it,
and it does not run past the largest `int`.

## Main definitions

* `Engine.next` — the engine after a statement, whatever it returns.
* `CountsAhead` — the counter of a table is ahead of its rows.
* `KeepsCounter` — the condition on a statement.
* `StoresFreshId` — what an INSERT without an id stores.

## Main results

* `executeSelect_keeps` — what a SELECT keeps.
* `CountsAhead.next` — one step.
* `fresh_ids_of_run` — the ids that are stored after any run.
-/

namespace MiniSql
open CText

/-- A table with an `id` column that can be read, ends with a whole line and leaves a next id. -/
def IdTable (table : CStr) (st : Storage) : Prop :=
  ∃ schema idCol rows, st.tableSchema table = some schema ∧
    findSchemaIndex schema "id".toList = some idCol ∧ EndsLine ((st.content table).getD []) ∧
    loadTableRows ((st.content table).getD []) schema.length = some rows ∧
    ∀ row ∈ rows, ∀ id ∈ rowId idCol row, id < intMax

/-- The counter of the table is ahead of its rows. -/
structure CountsAhead (table : CStr) (st : Storage) : Prop where
  coherent : st.Coherent table
  rows : ∃ schema idCol rows, st.tableSchema table = some schema ∧
    findSchemaIndex schema "id".toList = some idCol ∧ EndsLine ((st.content table).getD []) ∧
    loadTableRows ((st.content table).getD []) schema.length = some rows ∧
    Ahead idCol rows (st.metaCache.find table)

/-- **A DELETE or an UPDATE leaves the counter ahead**: there is none, so none is reset, and no row
gets the largest `int` for its id. -/
def RewriteKeeps (st : Storage) (table : CStr) (kept : Option (List Row)) : Prop :=
  ∀ rows ∈ kept, st.metaCache.find table = none ∧ ∀ schema ∈ st.tableSchema table,
    ∀ idCol ∈ findSchemaIndex schema "id".toList, ∀ row ∈ rows, ∀ id ∈ rowId idCol row, id < intMax

section Keep

variable {table : CStr} {st : Storage}

/-- The paths in the cache do not matter. -/
theorem CountsAhead.pathCache (h : CountsAhead table st) {paths : Slots CStr TablePaths}
    (hc : ({ st with pathCache := paths } : Storage).Coherent table) :
    CountsAhead table { st with pathCache := paths } := ⟨hc, h.rows⟩

theorem CountsAhead.insert (hshort : table.length ≤ nameMax) (h : CountsAhead table st)
    {columns values : List CStr} (hnul : ∀ v ∈ values, NulFree v)
    (hkeeps : InsertKeeps st table columns values) :
    CountsAhead table (storageInsert st table columns values).2 := by
  obtain ⟨schema, idCol, rows, hschema, hidx, hline, hload, hahead⟩ := h.rows
  obtain ⟨paths, schemas, hc, hwrites, hcontent, -⟩ :=
    storageInsert_view hshort h.coherent columns values
  have hentry := ahead_storageInsert hshort h.coherent hschema hidx hload hahead hkeeps
  have hcontent' : (storageInsert st table columns values).2.content table =
      withRow (st.content table) (appendedRow st table columns values) := by
    rw [Storage.content, hwrites.tableFile_eq]
    exact hcontent
  refine ⟨hwrites.coherent hc, schema, idCol, _, hwrites.tableSchema_eq.trans hschema, hidx, ?_, ?_,
    hentry⟩
  · rw [hcontent']
    cases appendedRow st table columns values with
    | none => exact hline
    | some row => exact endsLine_writeCsvRow _ row
  · rw [hcontent']
    cases happ : appendedRow st table columns values with
    | none =>
      rw [Option.toList_none, List.append_nil]
      exact hload
    | some row =>
      exact loadTableRows_append (hline.terminated _) hload (tableSchema_ne_nil hschema)
        (rowOk_insertedRow hnul (insertedRow_of_appended hschema happ))

theorem CountsAhead.rewrite (hshort : table.length ≤ nameMax) (h : CountsAhead table st)
    {plan : List ColDef → Option RowPlan} (hplan : KeepsRows plan)
    (hkeeps : RewriteKeeps st table (rewrittenRows st table plan)) :
    CountsAhead table (rewriteTable .none st table plan).2 := by
  obtain ⟨schema, idCol, rows, hschema, hidx, hline, hload, hahead⟩ := h.rows
  obtain ⟨paths, hc, hwrites, hresult⟩ := rewriteTable_view hshort h.coherent plan
  have hentry := rewriteTable_entry hshort h.coherent plan
  have hcontent : (rewriteTable .none st table plan).2.content table =
      (rewriteTable .none st table plan).2.files (st.tableFile table) := by
    rw [Storage.content, hwrites.tableFile_eq]
    rfl
  refine ⟨hwrites.coherent hc, ?_⟩
  rw [hcontent, hentry]
  cases hkept : rewrittenRows st table plan with
  | none =>
    rw [hkept] at hresult
    rw [hresult.2]
    exact ⟨schema, idCol, rows, hwrites.tableSchema_eq.trans hschema, hidx, hline, hload, hahead⟩
  | some kept =>
    rw [hkept] at hresult hkeeps
    obtain ⟨hnone, hlt⟩ := hkeeps kept rfl
    obtain ⟨file, hfile⟩ : ∃ file, st.content table = some file := by
      unfold rewrittenRows at hkept
      rw [hschema, Option.bind_some] at hkept
      obtain ⟨rowPlan, -, hkept⟩ := Option.bind_eq_some_iff.mp hkept
      obtain ⟨file, hfile, -⟩ := Option.bind_eq_some_iff.mp hkept
      exact ⟨file, hfile⟩
    rw [hfile, Option.getD_some] at hload
    obtain ⟨rowPlan, hrowPlan, hrows⟩ := rewrittenRows_eq_some hschema hfile hload hkept
    have hok := hplan hrowPlan (rowOk_of_loadTableRows hload) hrows
    rw [hresult.2, hnone]
    exact ⟨schema, idCol, kept, hwrites.tableSchema_eq.trans hschema, hidx, endsLine_flatMap kept,
      loadTableRows_flatMap (tableSchema_ne_nil hschema) hok, hlt schema hschema idCol hidx⟩

end Keep

/-! ## A SELECT -/

section Select

variable [CDouble] {e : Engine} {sql : ParsedSQL} {P : Storage → Prop}

theorem selectUnindexed_keeps
    (hselect : ∀ find st, P st → P (selectBy find st sql.table sql).2) {st : Storage} (h : P st) :
    P (selectUnindexed e st sql).2.storage := by
  have hscan : ∀ st : Storage, P st →
      P (scanOutcome e (storageSelectResult st sql.table sql)).2.storage := by
    intro st h
    have hst := hselect (fun st path schema => scanRows st path schema sql) st h
    unfold storageSelectResult
    rcases hres : selectBy (fun st path schema => scanRows st path schema sql) st sql.table sql with
      ⟨_ | rs, st₁⟩ <;> rw [hres] at hst <;> exact hst
  have hprefix : ∀ pre, P (selectPrefix e st sql pre).2 := by
    intro pre
    unfold selectPrefix
    dsimp only
    split
    · exact h
    · exact hselect _ st h
  unfold selectUnindexed
  cases shouldUseTriePrefix sql with
  | none => exact hscan st h
  | some pre =>
    dsimp only
    by_cases hready : e.trieReady = true
    · rw [if_pos hready]
      have hst := hprefix pre
      rcases hres : selectPrefix e st sql pre with ⟨_ | rs, st₁⟩ <;> rw [hres] at hst
      · exact hscan st₁ hst
      · exact hst
    · rw [if_neg hready]
      exact hscan st h

/-- **A SELECT keeps what filling the index gives and reading rows keeps.** -/
theorem executeSelect_keeps
    (hselect : ∀ find st, P st → P (selectBy find st sql.table sql).2)
    (h : P (ensureIndex e.storage sql.table)) : P (executeSelect e sql).2.storage := by
  have hrest : ∀ st : Storage, P st → P (selectUnindexed e st sql).2.storage :=
    fun st h => selectUnindexed_keeps hselect h
  have hrange : ∀ clause, P (selectRange (ensureIndex e.storage sql.table) sql clause).2 := by
    intro clause
    unfold selectRange
    split
    · split
      · exact h
      · exact hselect _ _ h
    · exact h
  have hpoint : ∀ clause, P (selectPoint (ensureIndex e.storage sql.table) sql clause).2 := by
    intro clause
    unfold selectPoint
    split
    · exact hselect _ _ h
    · exact h
  unfold executeSelect
  dsimp only
  cases shouldUseIdRange sql with
  | some clause =>
    have hst := hrange clause
    dsimp only
    rcases hres : selectRange (ensureIndex e.storage sql.table) sql clause with ⟨_ | _ | rs, st⟩ <;>
      rw [hres] at hst
    · exact hst
    · exact hrest st hst
    · exact hst
  | none =>
    cases shouldUseIdIndex sql with
    | none => exact hrest _ h
    | some clause =>
      have hst := hpoint clause
      dsimp only
      rcases hres : selectPoint (ensureIndex e.storage sql.table) sql clause with ⟨_ | rs, st⟩ <;>
        rw [hres] at hst
      · exact hrest st hst
      · exact hst

theorem CountsAhead.selectBy (hshort : sql.table.length ≤ nameMax)
    (find : Storage → Path → List ColDef → Option (List Row)) {st : Storage}
    (h : CountsAhead sql.table st) : CountsAhead sql.table (selectBy find st sql.table sql).2 := by
  rw [selectBy_snd_eq]
  by_cases hne : sql.table = []
  · rw [openSelect, if_pos hne]
    exact h
  · obtain ⟨paths, hopen, hc⟩ := openSelect_view hshort hne h.coherent
    rw [hopen]
    exact h.pathCache hc

theorem CountsAhead.select (hshort : sql.table.length ≤ nameMax)
    (h : CountsAhead sql.table e.storage) (hkeeps : IndexKeeps e.storage sql.table) :
    CountsAhead sql.table (executeSelect e sql).2.storage := by
  apply executeSelect_keeps fun find st hst => hst.selectBy hshort find
  obtain ⟨schema, idCol, rows, hschema, hidx, hline, hload, hahead⟩ := h.rows
  obtain ⟨hfiles, hc⟩ := ensureIndex_view hshort h.coherent
  have hsame : SameTable sql.table e.storage (ensureIndex e.storage sql.table) :=
    sameTable_of_own fun path _ => by rw [hfiles]
  refine ⟨hc, schema, idCol, rows, hsame.tableSchema.trans hschema, hidx, ?_, ?_, ?_⟩
  · rw [hsame.content]
    exact hline
  · rw [hsame.content]
    exact hload
  · exact ahead_ensureIndex hshort h.coherent hschema hidx hload hahead hkeeps

end Select

/-! ## Runs -/

section Run

variable [CDouble]

/-- An INSERT, an UPDATE, a DELETE or a SELECT on the table. -/
def ParsedSQL.On (table : CStr) (sql : ParsedSQL) : Prop :=
  (sql.type = .insert ∨ sql.type = .update ∨ sql.type = .delete ∨ sql.type = .select) ∧
    sql.table = table ∧ (∀ v ∈ sql.values, NulFree v) ∧ ∀ set ∈ sql.sets, NulFree set.value

/-- The engine after a statement, whatever it returns. -/
def Engine.next (e : Engine) (sql : ParsedSQL) : Option Engine := some (executeStatement e sql).2

/-- **A statement leaves the counter of its table ahead.** -/
def KeepsCounter (e : Engine) (sql : ParsedSQL) : Prop :=
  match sql.type with
  | .insert => InsertKeeps e.storage sql.table sql.columns sql.values
  | .update => RewriteKeeps e.storage sql.table (updatedRows e.storage sql.table sql)
  | .delete => RewriteKeeps e.storage sql.table (deletedRows e.storage sql.table sql)
  | .select => IndexKeeps e.storage sql.table
  | _ => True

/-- Whatever INSERT without an id is successful next, the id that it stores is positive, and no row has
it. -/
def StoresFreshId (table : CStr) (e : Engine) : Prop :=
  ∀ sql e', sql.On table → sql.type = .insert → ¬ GivesId sql.columns sql.values →
    executeStatement e sql = (.status true, e') →
    ∃ schema idCol rows row id, e.storage.tableSchema table = some schema ∧
      findSchemaIndex schema "id".toList = some idCol ∧
      loadTableRows ((e.storage.content table).getD []) schema.length = some rows ∧
      loadTableRows ((e'.storage.content table).getD []) schema.length = some (rows ++ [row]) ∧
      rowId idCol row = some id ∧ 0 < id ∧ ∀ row' ∈ rows, rowId idCol row' ≠ some id

variable {table : CStr} {e : Engine} {sql : ParsedSQL}

/-- The trie that is filled behind a write does not change the table. -/
theorem executeWrite_content (hshort : table.length ≤ nameMax) {result : Status × Storage}
    (hc : result.2.Coherent table) :
    (executeWrite e table result).2.storage.content table = result.2.content table := by
  obtain ⟨⟨paths, hpaths⟩, -⟩ := @refreshAfterWrite_storage _ { e with storage := result.2 } table
    hshort hc table result.1
  unfold executeWrite
  dsimp only
  rw [hpaths]
  rfl

/-- The trie that is filled after a write does not matter. -/
theorem CountsAhead.write (hshort : table.length ≤ nameMax) {result : Status × Storage}
    (h : CountsAhead table result.2) :
    CountsAhead table (executeWrite e table result).2.storage := by
  obtain ⟨⟨paths, hpaths⟩, hc⟩ := @refreshAfterWrite_storage _ { e with storage := result.2 } table
    hshort h.coherent table result.1
  unfold executeWrite
  dsimp only
  rw [hpaths] at hc ⊢
  exact h.pathCache hc

/-- **One step.** -/
theorem CountsAhead.next (hshort : table.length ≤ nameMax) (h : CountsAhead table e.storage)
    (hsql : sql.On table) (hkeeps : KeepsCounter e sql) :
    CountsAhead table (executeStatement e sql).2.storage := by
  obtain ⟨htype, rfl, hvalues, hsets⟩ := hsql
  unfold KeepsCounter at hkeeps
  unfold executeStatement
  rcases htype with htype | htype | htype | htype <;> rw [htype] at hkeeps ⊢ <;>
    dsimp only at hkeeps ⊢
  · exact (h.insert hshort hvalues hkeeps).write hshort
  · apply CountsAhead.write hshort
    unfold updatedRows at hkeeps
    unfold storageUpdate storageUpdateWith
    split at hkeeps
    · rw [if_pos ‹_›]
      exact h.rewrite hshort (keepsRows_updatePlan hsets) hkeeps
    · rw [if_neg ‹_›]
      exact h
  · apply CountsAhead.write hshort
    unfold deletedRows at hkeeps
    unfold storageDelete storageDeleteWith
    split at hkeeps
    · rw [if_pos ‹_›]
      exact h.rewrite hshort (keepsRows_deletePlan sql) hkeeps
    · rw [if_neg ‹_›]
      exact h
  · exact h.select hshort hkeeps

/-- A counter that is ahead gives the next INSERT an id that no row has. -/
theorem CountsAhead.storesFreshId (hshort : table.length ≤ nameMax)
    (h : CountsAhead table e.storage) : StoresFreshId table e := by
  intro sql e' hsql hinsert hgives hexec
  obtain ⟨-, rfl, hvalues, -⟩ := hsql
  obtain ⟨schema, idCol, rows, hschema, hidx, hline, hload, hahead⟩ := h.rows
  obtain ⟨paths, schemas, hc, hwrites, hcontent, happend⟩ :=
    storageInsert_view hshort h.coherent sql.columns sql.values
  have hwrite : executeWrite e sql.table
      (storageInsert e.storage sql.table sql.columns sql.values) = (.status true, e') := by
    unfold executeStatement at hexec
    rwa [hinsert] at hexec
  have hok : (storageInsert e.storage sql.table sql.columns sql.values).1 = .ok () := by
    have hstatus := congrArg Prod.fst hwrite
    exact ofStatus_ok.mp (by rw [show Outcome.ofStatus _ = _ from hstatus]; rfl)
  obtain ⟨row, hrow⟩ := Option.isSome_iff_exists.mp (happend hok)
  obtain ⟨id, hid, hpos, hlt⟩ := fresh_storageInsert hshort hschema hidx hload hahead hgives hrow
  have hafter : e'.storage.content sql.table = withRow (e.storage.content sql.table) (some row) := by
    have hcontent' := @executeWrite_content _ sql.table e hshort _ (hwrites.coherent hc)
    rw [hwrite] at hcontent'
    rw [hcontent', Storage.content, hwrites.tableFile_eq, ← hrow]
    exact hcontent
  refine ⟨schema, idCol, rows, row, id, hschema, hidx, hload, ?_, hid, hpos, ?_⟩
  · rw [hafter]
    exact loadTableRows_append (hline.terminated _) hload (tableSchema_ne_nil hschema)
      (rowOk_insertedRow hvalues (insertedRow_of_appended hschema hrow))
  · intro row' hrow' hsame
    exact absurd (hlt row' hrow' id hsame) (lt_irrefl id)

/-- After `engine_init` no table has an entry. -/
theorem countsAhead_engineInit {files : Path → Option CStr} (hshort : table.length ≤ nameMax)
    (h : IdTable table (engineInit files).storage) :
    CountsAhead table (engineInit files).storage := by
  obtain ⟨files', paths, hstorage, hc⟩ := engineInit_storage files
  obtain ⟨schema, idCol, rows, hschema, hidx, hline, hload, hlt⟩ := h
  refine ⟨hc table hshort, schema, idCol, rows, hschema, hidx, hline, hload, ?_⟩
  have hnone : (engineInit files).storage.metaCache.find table = none := by rw [hstorage]; rfl
  rw [hnone]
  exact hlt

/-- **In every state that a run reaches, an INSERT without an id stores a positive id that no row of
the table has**, if every statement of the run has left the counter ahead. -/
theorem fresh_ids_of_run {files : Path → Option CStr} (hshort : table.length ≤ nameMax)
    (hstart : IdTable table (engineInit files).storage) {stmts : List ParsedSQL}
    (hon : ∀ sql ∈ stmts, sql.On table)
    (hkeeps : Runs.Meets Engine.next KeepsCounter (engineInit files) stmts) {e : Engine}
    (hrun : Runs.run Engine.next (engineInit files) stmts = some e) : StoresFreshId table e := by
  have hmeets : Runs.Meets Engine.next (fun e sql => sql.On table ∧ KeepsCounter e sql)
      (engineInit files) stmts := hkeeps.imp fun e sql hsql h => ⟨hon sql hsql, h⟩
  have hahead : CountsAhead table e.storage :=
    @Runs.invariant Engine ParsedSQL _ _ (fun e => CountsAhead table e.storage)
      (fun e sql e' hinv hcond hstep => by
        obtain rfl := Option.some.inj hstep
        exact hinv.next hshort hcond.1 hcond.2) _ _ _
      (countsAhead_engineInit hshort hstart) hmeets hrun
  exact hahead.storesFreshId hshort

/-! ## Two kinds of runs -/

/-- What refutes that the next id is fresh: an INSERT that stores an id that is not positive or that a
row has. -/
theorem not_storesFreshId {table : CStr} {e : Engine} {sql : ParsedSQL} (hsql : sql.On table)
    (hinsert : sql.type = .insert) (hgives : ¬ GivesId sql.columns sql.values)
    (hok : (executeStatement e sql).1 = .status true) {schema : List ColDef} {idCol : ℕ}
    {rows : List Row} {row : Row} {id : ℤ} (hschema : e.storage.tableSchema table = some schema)
    (hidx : findSchemaIndex schema "id".toList = some idCol)
    (hload : loadTableRows ((e.storage.content table).getD []) schema.length = some rows)
    (hafter : loadTableRows (((executeStatement e sql).2.storage.content table).getD [])
      schema.length = some (rows ++ [row]))
    (hid : rowId idCol row = some id) (hbad : id ≤ 0 ∨ ∃ row' ∈ rows, rowId idCol row' = some id) :
    ¬ StoresFreshId table e := by
  intro hfresh
  obtain ⟨schema', idCol', rows', row', id', hschema', hidx', hload', hafter', hid', hpos, hnew⟩ :=
    hfresh sql (executeStatement e sql).2 hsql hinsert hgives (Prod.ext hok rfl)
  obtain rfl := Option.some.inj (hschema.symm.trans hschema')
  obtain rfl := Option.some.inj (hidx.symm.trans hidx')
  obtain rfl := Option.some.inj (hload.symm.trans hload')
  have hrows := Option.some.inj (hafter.symm.trans hafter')
  obtain rfl : row = row' := by simpa using hrows
  obtain rfl := Option.some.inj (hid.symm.trans hid')
  rcases hbad with hneg | ⟨old, hold, hsame⟩
  · omega
  · exact hnew old hold hsame

/-- A table `t (id INT, name VARCHAR)` with the rows `1,a` and `2,b`. -/
def nameTable : Path → Option CStr := fun path =>
  if path = schemaPath .nested "t".toList then some "id,INT\nname,VARCHAR\n".toList
  else if path = tablePath .nested "t".toList then some "1,a\n2,b\n".toList
  else none

/-- The columns of the table. -/
def nameColumns : List ColDef := [⟨"id".toList, .int⟩, ⟨"name".toList, .varchar⟩]

/-- `INSERT INTO t (name) VALUES ('c')`. -/
def insertNamed : ParsedSQL :=
  { parsedNew with
    type := .insert, table := "t".toList, columns := ["name".toList], values := [['c']] }

/-- `INSERT INTO t (id, name) VALUES (3, 'd')`. -/
def insertThree : ParsedSQL :=
  { parsedNew with
    type := .insert, table := "t".toList, columns := ["id".toList, "name".toList],
    values := [['3'], ['d']] }

/-- `SELECT * FROM t`. -/
def selectNames : ParsedSQL :=
  { parsedNew with type := .select, table := "t".toList, columns := [['*']] }

example :
    parseSql .zero "INSERT INTO t (name) VALUES ('c')".toList = some insertNamed ∧
      parseSql .zero "INSERT INTO t (id, name) VALUES (3, 'd')".toList = some insertThree ∧
      parseSql .zero "SELECT * FROM t".toList = some selectNames := by
  decide +kernel

omit [CDouble] in
instance (table : CStr) (sql : ParsedSQL) : Decidable (sql.On table) :=
  inferInstanceAs (Decidable (_ ∧ _ ∧ _ ∧ _))

omit [CDouble] in
instance (st : Storage) (table : CStr) (columns values : List CStr) :
    Decidable (InsertKeeps st table columns values) :=
  inferInstanceAs (Decidable (∀ schema ∈ st.tableSchema table,
    ∀ idCol ∈ findSchemaIndex schema "id".toList, ∀ row ∈ appendedRow st table columns values,
      if GivesId columns values then ∀ id ∈ rowId idCol row, id < st.counter table idCol
      else st.counter table idCol < intMax))

omit [CDouble] in
instance (st : Storage) (table : CStr) (kept : Option (List Row)) :
    Decidable (RewriteKeeps st table kept) :=
  inferInstanceAs (Decidable (∀ rows ∈ kept, _ ∧ ∀ schema ∈ st.tableSchema table,
    ∀ idCol ∈ findSchemaIndex schema "id".toList, ∀ row ∈ rows, ∀ id ∈ rowId idCol row, id < intMax))

omit [CDouble] in
instance (st : Storage) (table : CStr) : Decidable (IndexKeeps st table) :=
  inferInstanceAs (Decidable (_ → ∀ bin ∈ st.files (binPath table), ∀ schema ∈ st.tableSchema table,
    ∀ idCol ∈ findSchemaIndex schema "id".toList,
      ∀ rows ∈ loadTableRows ((st.content table).getD []) schema.length, _ ∧
        ∀ row ∈ rows, ∀ id ∈ rowId idCol row, id ≤ binMaxId schema idCol bin))

instance (e : Engine) (sql : ParsedSQL) : Decidable (KeepsCounter e sql) :=
  have : Decidable (match sql.type with
      | .insert => InsertKeeps e.storage sql.table sql.columns sql.values
      | .update => RewriteKeeps e.storage sql.table (updatedRows e.storage sql.table sql)
      | .delete => RewriteKeeps e.storage sql.table (deletedRows e.storage sql.table sql)
      | .select => IndexKeeps e.storage sql.table
      | _ => True) :=
    match sql.type with
    | .insert => inferInstanceAs (Decidable (InsertKeeps _ _ _ _))
    | .update => inferInstanceAs (Decidable (RewriteKeeps _ _ _))
    | .delete => inferInstanceAs (Decidable (RewriteKeeps _ _ _))
    | .select => inferInstanceAs (Decidable (IndexKeeps _ _))
    | .create | .unknown => isTrue trivial
  this

omit [CDouble]

/-- A DELETE before the first INSERT, a SELECT, an INSERT without an id, and one of an id that is
taken. -/
theorem fresh_ids_after_delete : ∃ e,
    Runs.run (@Engine.next .whole) (@engineInit .whole nameTable)
      [deleteTwo, selectNames, insertNamed, insertTwo] = some e ∧
    @StoresFreshId .whole "t".toList e :=
  ⟨_, rfl, @fresh_ids_of_run .whole _ nameTable (by decide)
    ⟨nameColumns, 0, [[['1'], ['a']], [['2'], ['b']]], by decide +kernel, by decide, by decide +kernel, by decide +kernel, by decide +kernel⟩
    [deleteTwo, selectNames, insertNamed, insertTwo] (by decide) (by decide +kernel) _ rfl⟩

/-- Behind an INSERT of the id that the counter holds, the next INSERT stores that id again. Behind a
DELETE, which resets the counter, it stores the id `0`. -/
theorem stale_ids :
    (∃ e, Runs.run (@Engine.next .whole) (@engineInit .whole nameTable) [insertThree] = some e ∧
      ¬ @StoresFreshId .whole "t".toList e) ∧
    ∃ e, Runs.run (@Engine.next .whole) (@engineInit .whole nameTable) [insertNamed, deleteTwo] =
        some e ∧
      ¬ @StoresFreshId .whole "t".toList e := by
  refine ⟨⟨_, rfl, ?taken⟩, ⟨_, rfl, ?zero⟩⟩
  case taken =>
    exact @not_storesFreshId .whole _ _ insertNamed (by decide) rfl (by decide) (by decide +kernel)
      nameColumns 0 [[['1'], ['a']], [['2'], ['b']], [['3'], ['d']]] [['3'], ['c']] 3
      (by decide +kernel) (by decide) (by decide +kernel) (by decide +kernel) (by decide +kernel)
      (.inr (by decide +kernel))
  case zero =>
    exact @not_storesFreshId .whole _ _ insertNamed (by decide) rfl (by decide) (by decide +kernel)
      nameColumns 0 [[['1'], ['a']], [['3'], ['c']]] [['0'], ['c']] 0
      (by decide +kernel) (by decide) (by decide +kernel) (by decide +kernel) (by decide +kernel)
      (.inl le_rfl)

end Run

end MiniSql

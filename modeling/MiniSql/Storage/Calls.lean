import MiniSql.Lib.Runs
import MiniSql.Storage.Statements

/-!
# Calls that write rows

`storage_insert`, `storage_update` and `storage_delete` as the steps of a machine on the state
of the storage.

## Main definitions

* `Call` — a call of one of the three functions.
* `Call.step` — the state after a call that was successful.

## Main results

* `Call.exec_sound` — what every call keeps.
* `insertedRow_cell` — where the cells of an inserted row come from.
-/

namespace MiniSql
open CText

/-- A call of one of the functions that write rows. -/
inductive Call
  | insert (table : CStr) (columns values : List CStr)
  | update (table : CStr) (sql : ParsedSQL)
  | delete (table : CStr) (sql : ParsedSQL)
  deriving DecidableEq, Repr

namespace Call

def table : Call → CStr
  | insert table _ _ => table
  | update table _ => table
  | delete table _ => table

/-- The arguments are C strings, and the table is a file name of its own. -/
def Ok : Call → Prop
  | insert table _ values => PlainName table ∧ ∀ v ∈ values, NulFree v
  | update table sql => PlainName table ∧ ∀ set ∈ sql.sets, NulFree set.value
  | delete table _ => PlainName table

instance : ∀ c : Call, Decidable c.Ok
  | insert _ _ _ => inferInstanceAs (Decidable (_ ∧ _))
  | update _ _ => inferInstanceAs (Decidable (_ ∧ _))
  | delete table _ => inferInstanceAs (Decidable (PlainName table))

theorem Ok.plain {c : Call} (h : c.Ok) : PlainName c.table := by
  cases c with
  | insert => exact h.1
  | update => exact h.1
  | delete => exact h

variable [CDouble]

def exec (st : Storage) : Call → Status × Storage
  | insert table columns values => storageInsert st table columns values
  | update table sql => storageUpdate st table sql
  | delete table sql => storageDelete st table sql

/-- The state after a successful call. -/
def step (st : Storage) (c : Call) : Option Storage :=
  match exec st c with
  | (.ok (), st) => some st
  | (.error _, _) => none

theorem step_eq_some {st st' : Storage} {c : Call} :
    step st c = some st' ↔ exec st c = (.ok (), st') := by
  unfold step
  rcases exec st c with ⟨_ | _, st₁⟩ <;> simp

theorem touches_exec {st : Storage} {c : Call} (hs : st.Sound) (hok : c.Ok) :
    Touches c.table st (exec st c).2 := by
  have hplain := hok.plain
  cases c with
  | insert table columns values => exact touches_storageInsert hs.wf hplain.1 columns values
  | update table sql => exact touches_storageUpdate hs.wf hplain.1 sql
  | delete table sql => exact touches_storageDelete hs.wf hplain.1 sql

/-- A call keeps the caches sound, and its table where it was. -/
theorem exec_sound {st : Storage} {c : Call} (hs : st.Sound) (hok : c.Ok) :
    (exec st c).2.Sound ∧ (exec st c).2.tableFile c.table = st.tableFile c.table ∧
      (exec st c).2.tableSchema c.table = st.tableSchema c.table := by
  have hplain := hok.plain
  cases c with
  | insert table columns values =>
    obtain ⟨hsound, hfile, hschema, -⟩ := storageInsert_table hs hplain columns values
    exact ⟨hsound, hfile, hschema⟩
  | update table sql =>
    obtain ⟨hsound, hfile, hschema, -⟩ := storageUpdate_table hs hplain sql
    exact ⟨hsound, hfile, hschema⟩
  | delete table sql =>
    obtain ⟨hsound, hfile, hschema, -⟩ := storageDelete_table hs hplain sql
    exact ⟨hsound, hfile, hschema⟩

end Call

/-! ## The inserted row -/

/-- The automatic id is put in front of the values. -/
theorem gives_cons_id {schema : List ColDef} {columns values : List CStr} {w v : CStr} {j : ℕ}
    (h : Gives schema ("id".toList :: columns) (w :: values) j v) :
    (findSchemaIndex schema "id".toList = some j ∧ v = w) ∨ Gives schema columns values j v := by
  rcases h with ⟨hnil, -⟩ | ⟨_ | i, c, hv, hc, hfind⟩
  · exact absurd hnil (by simp)
  · obtain rfl : w = v := by simpa using hv
    obtain rfl : "id".toList = c := by simpa using hc
    exact .inl ⟨hfind, rfl⟩
  · exact .inr (.inr ⟨i, c, by simpa using hv, by simpa using hc, hfind⟩)

/-- The automatic id goes to the cell. -/
def AutoCell (st : Storage) (table : CStr) (columns values : List CStr) (schema : List ColDef)
    (j : ℕ) (v : CStr) : Prop :=
  findSchemaIndex schema "id".toList = some j ∧ userHasId values.length columns = .ok false ∧
    ∃ id, st.autoId table j = some id ∧ v = intText id

/-- **Every cell of an inserted row is a value given for its column or the automatic id.** -/
theorem insertedRow_cell {st : Storage} {table : CStr} {columns values : List CStr}
    {schema : List ColDef} {row : Row} (h : insertedRow st table columns values schema = some row) :
    row.length = schema.length ∧ ∀ (j : ℕ) (v : CStr), row[j]? = some v →
      Gives schema columns values j v ∨ AutoCell st table columns values schema j v := by
  have hbuilt : ∀ {columns values : List CStr},
      (buildRowInSchemaOrder schema columns values).toOption = some row →
        buildRowInSchemaOrder schema columns values = .ok row := by
    intro columns values heq
    cases hres : buildRowInSchemaOrder schema columns values with
    | error e => exact absurd (hres ▸ heq) (by simp [Except.toOption])
    | ok row' => rw [Option.some.inj ((hres ▸ heq : (Except.ok row').toOption = some row))]
  have hgiven : buildRowInSchemaOrder schema columns values = .ok row →
      row.length = schema.length ∧ ∀ (j : ℕ) (v : CStr), row[j]? = some v →
        Gives schema columns values j v ∨ AutoCell st table columns values schema j v :=
    fun hrow => ⟨length_buildRow hrow, fun j v hj => .inl (buildRow_cell hrow hj)⟩
  unfold insertedRow at h
  cases hidx : findSchemaIndex schema "id".toList with
  | none =>
    rw [hidx] at h
    exact hgiven (hbuilt h)
  | some idCol =>
    rw [hidx] at h
    dsimp only at h
    rcases hgives : (if columns = [] then Except.ok true else userHasId values.length columns) with
      e | _ | _ <;> rw [hgives] at h <;> dsimp only at h
    · exact absurd h (by simp)
    · have hne : columns ≠ [] := by
        intro hnil
        rw [if_pos hnil] at hgives
        exact absurd hgives (by simp)
      rw [if_neg hne] at hgives
      obtain ⟨id, hid, hrow⟩ := Option.bind_eq_some_iff.mp h
      have hrow := hbuilt hrow
      refine ⟨length_buildRow hrow, fun j v hj => ?_⟩
      rcases gives_cons_id (buildRow_cell hrow hj) with ⟨hcol, rfl⟩ | hgive
      · obtain rfl : idCol = j := Option.some.inj (hidx.symm.trans hcol)
        exact .inr ⟨hidx, hgives, id, hid, rfl⟩
      · exact .inl hgive
    · exact hgiven (hbuilt h)

/-- The cells of an inserted row are C strings. -/
theorem rowOk_insertedRow {st : Storage} {table : CStr} {columns values : List CStr}
    {schema : List ColDef} (hnul : ∀ v ∈ values, NulFree v) {row : Row}
    (h : insertedRow st table columns values schema = some row) : RowOk schema.length row := by
  obtain ⟨hlen, hcell⟩ := insertedRow_cell h
  refine ⟨hlen, fun v hv => ?_⟩
  obtain ⟨j, hj⟩ := List.mem_iff_getElem?.mp hv
  rcases hcell j v hj with hgive | ⟨-, -, id, -, rfl⟩
  · exact hnul v hgive.mem
  · exact nulFree_intText id

/-- A table has a column. -/
theorem tableSchema_ne_nil {st : Storage} {table : CStr} {schema : List ColDef}
    (h : st.tableSchema table = some schema) : 0 < schema.length := by
  obtain ⟨file, -, hparse⟩ := Option.bind_eq_some_iff.mp h
  exact List.length_pos_of_ne_nil (parseSchema_ne_nil hparse)

/-! ## The rows that a rewriting leaves -/

/-- The rows that a rewriting leaves have as many cells as those it reads, and all are C strings. -/
def KeepsRows (plan : List ColDef → Option RowPlan) : Prop :=
  ∀ {schema rowPlan}, plan schema = some rowPlan → ∀ {width rows kept},
    (∀ row ∈ rows, RowOk width row) → planRows rowPlan rows = some kept →
      ∀ row ∈ kept, RowOk width row

theorem keepsRows_deletePlan [CDouble] (sql : ParsedSQL) : KeepsRows (deletePlan sql) := by
  intro schema rowPlan hplan width rows kept hrows hkept row hrow
  unfold deletePlan at hplan
  split at hplan
  · obtain rfl := Option.some.inj hplan
    exact hrows row (mem_planRows_deleteRow hkept hrow)
  · exact absurd hplan (by simp)

theorem keepsRows_updatePlan [CDouble] {sql : ParsedSQL} (hnul : ∀ set ∈ sql.sets, NulFree set.value) :
    KeepsRows (updatePlan sql) := by
  intro schema rowPlan hplan width rows kept hrows hkept row hrow
  unfold updatePlan at hplan
  split at hplan
  · exact absurd hplan (by simp)
  · split at hplan
    · obtain rfl := Option.some.inj hplan
      obtain ⟨old, hold, rfl | ⟨-, hupdate⟩⟩ := mem_planRows_updateRow hkept hrow
      · exact hrows row hold
      · exact rowOk_updateRow hnul (hrows old hold) hupdate
    · exact absurd hplan (by simp)

/-- What a rewriting leaves of the rows that it can read. -/
theorem rewrittenRows_eq_some {st : Storage} {table : CStr} {plan : List ColDef → Option RowPlan}
    {schema : List ColDef} {file : CStr} {rows kept : List Row}
    (hschema : st.tableSchema table = some schema) (hfile : st.content table = some file)
    (hload : loadTableRows file schema.length = some rows)
    (h : rewrittenRows st table plan = some kept) :
    ∃ rowPlan, plan schema = some rowPlan ∧ planRows rowPlan rows = some kept := by
  unfold rewrittenRows at h
  rw [hschema, Option.bind_some] at h
  obtain ⟨rowPlan, hplan, h⟩ := Option.bind_eq_some_iff.mp h
  rw [hfile, Option.bind_some, hload, Option.bind_some] at h
  exact ⟨rowPlan, hplan, h⟩

end MiniSql
